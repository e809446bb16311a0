import NetworkSimulator.Library.Machine
import NetworkSimulator.Proofs.SliceEffects
import NetworkSimulator.Proofs.VirtualTime

/-! Which frames the simulator loses. The deque is filled up to the end of the
slice, but delivery stops with the pass that reads STOP; what is due later than
that pass goes out of scope with the deque. -/

namespace NetworkSimulator.Simulator
variable {VM_NUMBER : Nat} {links : Links VM_NUMBER}

/-- The frames from VM `j` written to the TAP of VM `i`. -/
def State.written_from (state : State VM_NUMBER) (i j : Fin VM_NUMBER) : List FrameToDeliver :=
  Merge.taken ((state.written i).map Delivery.entry) j

/-- Every frame pushed was written once, in order, or still waits. -/
def Conserved (state : State VM_NUMBER) : Prop :=
  ∀ i j, state.pushed i j = state.written_from i j ++ state.inter_vm_queues i j

/-- The frames in front of the first one due after the end of the slice are due
by the time of the pass that reads STOP. -/
def Covered (links : Links VM_NUMBER) (state : State VM_NUMBER) (slice : Slice) : Prop :=
  ∀ vm ∈ current_vm_index state.virtual_clocks_ns, ∀ limit ∈ end_of_time_slice_ns links state.virtual_clocks_ns vm,
    ∀ last ∈ slice.polls.getLast?, ∀ j,
    ∀ frame ∈ (state.inter_vm_queues vm j).takeWhile (fun frame => decide (frame.delivery_timestamp_ns ≤ limit)),
      frame.delivery_timestamp_ns ≤ virtual_time (state.virtual_clocks_ns vm) slice.start_exec_time last.current_ts

/-- The clock of the host does not go back, and STOP is not read before the
commanded time has passed. -/
def Timely (links : Links VM_NUMBER) (state : State VM_NUMBER) (slice : Slice) : Prop :=
  slice.readings.Pairwise (· ≤ ·) ∧ ∀ vm ∈ current_vm_index state.virtual_clocks_ns,
    ∀ duration ∈ duration_to_run_ns links state.virtual_clocks_ns vm,
      slice.start_exec_time + duration_ms duration * 1000000 ≤ slice.stop_time

instance (state : State VM_NUMBER) : Decidable (Conserved state) :=
  inferInstanceAs (Decidable (∀ i j, state.pushed i j = _))

instance (state : State VM_NUMBER) (slice : Slice) : Decidable (Timely links state slice) :=
  inferInstanceAs (Decidable (_ ∧ ∀ vm ∈ current_vm_index _, ∀ duration ∈ duration_to_run_ns _ _ vm, _))

instance (state : State VM_NUMBER) (slice : Slice) : Decidable (Covered links state slice) :=
  inferInstanceAs (Decidable (∀ vm ∈ current_vm_index _, ∀ limit ∈ end_of_time_slice_ns _ _ vm, ∀ last ∈ slice.polls.getLast?,
    ∀ j, ∀ frame ∈ (state.inter_vm_queues vm j).takeWhile _, _))

private theorem monotone_passes {slice : Slice} {pass last : Poll} (monotone : slice.readings.Pairwise (· ≤ ·))
    (stop : slice.polls.getLast? = some last) (listed : pass ∈ slice.polls) : pass.current_ts ≤ last.current_ts := by
  have own (poll : Poll) : poll.current_ts ∈ poll.readings := List.mem_append_right _ (List.mem_singleton_self _)
  obtain ⟨early, same⟩ := List.getLast?_eq_some_iff.mp stop
  rw [same] at listed
  rcases List.mem_append.mp listed with before | final
  · rw [Slice.readings, same] at monotone
    simp only [List.dropLast_concat, List.getLast?_concat, Option.toList_some, List.flatMap_singleton] at monotone
    apply (List.pairwise_append.mp monotone).2.2
    · exact List.mem_cons_of_mem _ (List.mem_flatMap.mpr ⟨pass, before, own pass⟩)
    · exact List.mem_cons_of_mem _ (own last)
  · cases List.mem_singleton.mp final
    exact Nat.le_refl _

section
variable {state next : State VM_NUMBER} {vm : Fin VM_NUMBER} {slice : Slice} (iteration : Iteration links state vm slice next)
include iteration

theorem Iteration.written_from (i j : Fin VM_NUMBER) : next.written_from i j =
    if i = vm then state.written_from i j ++ Merge.taken (iteration.sent.map Delivery.entry) j
    else state.written_from i j := by
  rw [State.written_from, iteration.written]
  split
  next current =>
    rw [current, Function.update_self, List.map_append, Merge.taken_append]
    rfl
  next other =>
    rw [Function.update_of_ne other]
    rfl

/-- What a slice discards is all that is missing after it. -/
private theorem Iteration.balance (before : Conserved state) (i j : Fin VM_NUMBER) : next.pushed i j =
    next.written_from i j ++ (if i = vm then Merge.taken iteration.discarded j else []) ++ next.inter_vm_queues i j := by
  have old := before i j
  have kept : state.pushed i j = next.written_from i j ++
      (if i = vm then Merge.taken iteration.discarded j else []) ++ iteration.remaining i j := by
    rw [iteration.written_from]
    by_cases current : i = vm
    · subst current
      rw [if_pos rfl, if_pos rfl, iteration.remaining_self, old, iteration.extraction.split j, iteration.deque,
        Merge.taken_append]
      simp only [List.append_assoc]
    · rw [if_neg current, if_neg current, iteration.remaining_other current, old, List.append_nil]
  rw [iteration.pushed, iteration.queues, kept]
  split <;> simp only [List.append_assoc]

/-- A slice loses nothing exactly when its deque is empty at the end. -/
theorem Iteration.conserved_iff (before : Conserved state) : Conserved next ↔ iteration.discarded = [] := by
  constructor
  · intro after
    cases left : iteration.discarded with
    | nil => rfl
    | cons entry rest =>
      exfalso
      have whole := iteration.balance before vm entry.1
      rw [after vm entry.1, if_pos rfl, List.append_cancel_right_eq, left, Merge.taken_cons, if_pos rfl] at whole
      simp at whole
  · intro empty i j
    rw [iteration.balance before i j, empty]
    split <;> simp [Merge.taken]

theorem Iteration.covered (chosen : current_vm_index state.virtual_clocks_ns = some vm) (covered : Covered links state slice) :
    iteration.discarded = [] := by
  apply iteration.flushed
  intro entry picked
  apply covered vm chosen iteration.limit iteration.bound iteration.last iteration.stop entry.1
  rw [← iteration.extraction.taken_eq]
  exact Merge.mem_taken.mpr picked


end

/-- With sorted queues and a clock that does not go back no other slice keeps
every frame. -/
theorem slice_conserves_iff {state next : State VM_NUMBER} {slice : Slice} (before : Conserved state)
    (sorted : ∀ i j, (state.inter_vm_queues i j).Pairwise fun a b => a.delivery_timestamp_ns ≤ b.delivery_timestamp_ns)
    (monotone : slice.readings.Pairwise (· ≤ ·)) (taken : step links state slice = some next) :
    Conserved next ↔ Covered links state slice := by
  obtain ⟨vm, chosen, ⟨iteration⟩⟩ := step_iteration taken
  rw [iteration.conserved_iff before]
  refine ⟨fun empty => ?_, iteration.covered chosen⟩
  intro other again limit bound last stop j frame taken
  cases chosen.symm.trans again
  cases iteration.bound.symm.trans bound
  rw [← iteration.extraction.taken_eq, iteration.deque, empty, List.append_nil] at taken
  obtain ⟨delivery, written, same⟩ := List.mem_map.mp (Merge.mem_taken.mp taken)
  cases same
  obtain ⟨pass, listed, estimate⟩ := iteration.estimates delivery written
  have due := iteration.prompt (iteration.extraction.sorted_picks (sorted vm)) delivery written
  have in_time : pass.current_ts ≤ last.current_ts := monotone_passes monotone stop listed
  calc delivery.frame.delivery_timestamp_ns ≤ delivery.current_virtual_time_estimation_ns := due
    _ = virtual_time _ slice.start_exec_time pass.current_ts := estimate
    _ ≤ virtual_time _ slice.start_exec_time last.current_ts := virtual_time_mono _ _ in_time

theorem frames_conserved {initial final : State VM_NUMBER} {slices : List Slice} (start : Conserved initial)
    (every : Machine.Every (step links) (Covered links) initial slices)
    (ran : Machine.run (step links) initial slices = some final) : Conserved final :=
  every.invariant Conserved start (by
    intro state slice next before covered taken
    obtain ⟨vm, chosen, ⟨iteration⟩⟩ := step_iteration taken
    exact (iteration.conserved_iff before).mpr (iteration.covered chosen covered)) ran

private def even : Links 2 where
  inter_vm_delays_ms := fun _ _ => 1

private def apart : State 2 where
  virtual_clocks_ns := ![1000000, 0]

/-- VM 1 broadcasts 2.2 ms into its slice; VM 0 is told to run for 2 of the 2.5 ms
it could run, and the simulator reads its STOP `stop_delay` ns after that. -/
private def truncated (stop_delay : Nat) : List Slice :=
  [{ start_exec_time := 0, stop_time := 2600000, virtual_end_time_ns := 2500000, polls :=
      [{ packet := some (2200000, some (List.replicate 6 255)), current_ts := 2300000 },
        { qmp_line := some "timestamp STOP", current_ts := 2700000 }] },
    { start_exec_time := 3000000, stop_time := 5000000 + stop_delay, virtual_end_time_ns := 3000000 + stop_delay, polls :=
      [{ qmp_line := some "timestamp STOP", current_ts := 5000000 + stop_delay }] }]

set_option maxRecDepth 20000 in
theorem frames_conserved_two : ∃ final : State 2, Machine.run (step even) apart (truncated 300000) = some final ∧
    final.written_from 0 1 ≠ [] ∧ Conserved final :=
  ⟨_, rfl, by decide, @frames_conserved _ even apart _ (truncated 300000) (by decide) (by decide) rfl⟩

set_option maxRecDepth 20000 in
/-- The frame due at 3.2 ms is in the deque, but the last pass is at 3.1 ms. -/
theorem last_frame_lost : ∃ final : State 2, Machine.run (step even) apart (truncated 100000) = some final ∧
    Machine.Every (step even) (Timely even) apart (truncated 100000) ∧ ¬ Conserved final :=
  ⟨_, rfl, by decide, by decide⟩

end NetworkSimulator.Simulator
