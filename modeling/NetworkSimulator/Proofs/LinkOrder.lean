import NetworkSimulator.Library.Machine
import NetworkSimulator.Proofs.FrameStamps

/-! Per-link order. A frame is stamped from the clock of the host, and the next
slice of its sender starts from the clock QEMU reports; the queues stay sorted
where the first is not ahead of the second. -/

namespace NetworkSimulator.Simulator
variable {VM_NUMBER : Nat} {links : Links VM_NUMBER}

/-- The clock of the host does not go back, and the VM has not run for longer
than has passed until STOP is read. -/
def Plausible (state : State VM_NUMBER) (slice : Slice) : Prop :=
  slice.readings.Pairwise (· ≤ ·) ∧ ∀ vm ∈ current_vm_index state.virtual_clocks_ns,
    state.virtual_clocks_ns vm ≤ slice.virtual_end_time_ns ∧
    slice.virtual_end_time_ns ≤ state.virtual_clocks_ns vm + (slice.stop_time - slice.start_exec_time)

/-- No frame is stamped after the end of the slice it is read in. -/
def Accounted (links : Links VM_NUMBER) (state : State VM_NUMBER) (slice : Slice) : Prop :=
  ∀ vm ∈ current_vm_index state.virtual_clocks_ns, ∀ stamp ∈ slice.stamps links vm (state.virtual_clocks_ns vm),
    stamp ≤ slice.virtual_end_time_ns

instance (state : State VM_NUMBER) (slice : Slice) : Decidable (Plausible state slice) :=
  inferInstanceAs (Decidable (_ ∧ ∀ vm ∈ current_vm_index _, _ ∧ _))

instance (state : State VM_NUMBER) (slice : Slice) : Decidable (Accounted links state slice) :=
  inferInstanceAs (Decidable (∀ vm ∈ current_vm_index _, ∀ stamp ∈ slice.stamps links vm _, _))

instance (delivery : Delivery VM_NUMBER) : Decidable delivery.Due := inferInstanceAs (Decidable (_ ≤ _))

/-- Every queue is sorted in push order, and no frame was written early. -/
def InOrder (state : State VM_NUMBER) : Prop :=
  (∀ i j, (state.inter_vm_queues i j).Pairwise fun a b => a.delivery_timestamp_ns ≤ b.delivery_timestamp_ns) ∧
    ∀ i, ∀ delivery ∈ state.written i, delivery.Due

section
variable {state next : State VM_NUMBER} {vm : Fin VM_NUMBER} {slice : Slice} (iteration : Iteration links state vm slice next)
include iteration

private theorem Iteration.ordered_accounted (chosen : current_vm_index state.virtual_clocks_ns = some vm)
    (before : Ordered links state) (credible : Plausible state slice) (accounted : Accounted links state slice) : Ordered links next := by
  obtain ⟨monotone, reported⟩ := credible
  apply iteration.ordered before (reported vm chosen).1 (Slice.stamps_sorted monotone)
  intro stamp read
  exact ⟨Slice.stamp_ge read, accounted vm chosen stamp read⟩

private theorem Iteration.written_due (before : Ordered links state)
    (due : ∀ i, ∀ delivery ∈ state.written i, delivery.Due) : ∀ i, ∀ delivery ∈ next.written i, delivery.Due := by
  intro i delivery member
  rw [iteration.written] at member
  by_cases current : i = vm
  · subst current
    rw [Function.update_self] at member
    rcases List.mem_append.mp member with earlier | now
    · exact due i delivery earlier
    · exact iteration.prompt (iteration.extraction.sorted_picks fun j => (before i j).1) delivery now
  · rw [Function.update_of_ne current] at member
    exact due i delivery member

end

theorem link_order {initial final : State VM_NUMBER} {slices : List Slice}
    (fresh : ∀ i j, initial.inter_vm_queues i j = [] ∧ initial.written i = [])
    (every : Machine.Every (step links) (fun state slice => Plausible state slice ∧ Accounted links state slice) initial slices)
    (ran : Machine.run (step links) initial slices = some final) : InOrder final := by
  have start : Ordered links initial ∧ ∀ i, ∀ delivery ∈ initial.written i, delivery.Due := by
    refine ⟨fun i j => ?_, fun i delivery member => ?_⟩
    · rw [(fresh i j).1]
      exact ⟨List.Pairwise.nil, fun _ none => nomatch none⟩
    · rw [(fresh i i).2] at member
      cases member
  obtain ⟨ordered, due⟩ := every.invariant (fun state => Ordered links state ∧ ∀ i, ∀ delivery ∈ state.written i, delivery.Due)
    start (by
      intro state slice next found given taken
      obtain ⟨ordered, due⟩ := found
      obtain ⟨credible, accounted⟩ := given
      obtain ⟨vm, chosen, ⟨iteration⟩⟩ := step_iteration taken
      exact ⟨iteration.ordered_accounted chosen ordered credible accounted, iteration.written_due ordered due⟩) ran
  exact ⟨fun i j => (ordered i j).1, due⟩

private def distant : Links 2 where
  inter_vm_delays_ms := fun _ _ => 10
  mac_to_vm_index := fun mac => if mac = "52:54:00:00:00:01" then some 1 else none

private def together : State 2 where
  virtual_clocks_ns := fun _ => 0

private def unicast : List UInt8 := [0x52, 0x54, 0, 0, 0, 1]

/-- VM 0 sends a frame in each of its two slices, the first one `late` ns after
the clock it reports at the end; then VM 1 runs. -/
private def overtaking (late : Nat) : List Slice :=
  [{ start_exec_time := 0, stop_time := 11550000, virtual_end_time_ns := 10000000, polls :=
      [{ packet := some (10000000 + late, some unicast), current_ts := 11550000 },
        { qmp_line := some "timestamp STOP", current_ts := 11600000 }] },
    { start_exec_time := 0, stop_time := 10000000, virtual_end_time_ns := 10000000, polls :=
      [{ qmp_line := some "timestamp STOP", current_ts := 10000000 }] },
    { start_exec_time := 0, stop_time := 2000000, virtual_end_time_ns := 12000000, polls :=
      [{ packet := some (500000, some unicast), current_ts := 500000 },
        { qmp_line := some "timestamp STOP", current_ts := 2000000 }] },
    { start_exec_time := 0, stop_time := 11600000, virtual_end_time_ns := 21000000, polls :=
      [{ current_ts := 10600000 }, { qmp_line := some "timestamp STOP", current_ts := 11600000 }] }]

set_option maxRecDepth 20000 in
theorem link_order_two : ∃ final : State 2, Machine.run (step distant) together (overtaking 0) = some final ∧
    final.written 1 ≠ [] ∧ InOrder final :=
  ⟨_, rfl, by decide, @link_order _ distant together _ (overtaking 0) (by decide) (by decide) rfl⟩

set_option maxRecDepth 20000 in
/-- With 1.5 ms after the clock reported, the second frame is queued behind the
first although it is due earlier, and the search releases the first with it. -/
theorem overtaken_frame_early : ∃ waiting final : State 2,
    Machine.run (step distant) together ((overtaking 1500000).take 3) = some waiting ∧
    ¬ (waiting.inter_vm_queues 1 0).Pairwise (fun a b => a.delivery_timestamp_ns ≤ b.delivery_timestamp_ns) ∧
    Machine.run (step distant) together (overtaking 1500000) = some final ∧ (∃ delivery ∈ final.written 1, ¬ delivery.Due) ∧
    Machine.Every (step distant) Plausible together (overtaking 1500000) :=
  ⟨_, _, rfl, by decide, rfl, by decide, by decide⟩

end NetworkSimulator.Simulator
