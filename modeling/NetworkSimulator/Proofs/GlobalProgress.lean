import NetworkSimulator.Library.Machine
import NetworkSimulator.Library.Rounds
import NetworkSimulator.Proofs.SliceEffects
import NetworkSimulator.Proofs.VirtualTime
import Mathlib.Data.Fin.VecNotation

/-! No VM is starved. The VM that is furthest behind runs next, for at least the
shortest link delay, so a round of as many slices as there are VMs raises the
least clock by that delay. -/

namespace NetworkSimulator.Simulator
variable {VM_NUMBER : Nat} {links : Links VM_NUMBER} {L : Nat}

/-- QEMU runs a VM for as long as it is told, and the arithmetic is exact. -/
def Obeyed (links : Links VM_NUMBER) (state : State VM_NUMBER) (slice : Slice) : Prop :=
  ∀ vm ∈ current_vm_index state.virtual_clocks_ns,
    (∀ i, state.virtual_clocks_ns i + links.inter_vm_delays_ms vm i * 1000000 < 2 ^ 53) ∧
    ∀ duration ∈ duration_to_run_ns links state.virtual_clocks_ns vm, duration_ms duration < 2 ^ 31 ∧
      state.virtual_clocks_ns vm + commanded_duration_ms duration * 1000000 ≤ slice.virtual_end_time_ns

instance (state : State VM_NUMBER) (slice : Slice) : Decidable (Obeyed links state slice) :=
  inferInstanceAs (Decidable (∀ vm ∈ current_vm_index _, _ ∧ ∀ duration ∈ duration_to_run_ns _ _ vm, _))

section
variable (lookahead : ∀ i j, i ≠ j ∨ VM_NUMBER = 1 → L ≤ links.inter_vm_delays_ms i j)
include lookahead

/-- The chosen VM is commanded at least the shortest delay. A single one is given
its own. -/
theorem lookahead_le_duration {virtual_clocks_ns : Fin VM_NUMBER → Nat} {vm : Fin VM_NUMBER} {duration : Nat}
    (least : ∀ i, virtual_clocks_ns vm ≤ virtual_clocks_ns i)
    (small : ∀ i, virtual_clocks_ns i + links.inter_vm_delays_ms vm i * 1000000 < 2 ^ 53)
    (found : duration_to_run_ns links virtual_clocks_ns vm = some duration) :
    L ≤ duration_ms duration ∧ duration < 2 ^ 53 := by
  obtain ⟨i, listed, rfl⟩ := List.mem_map.mp (Search.minElement_mem found)
  have kept := (List.mem_filter.mp listed).2
  rw [decide_eq_true_eq] at kept
  have reach := clock_add_duration (least i) (small i)
  have behind := least i
  have exact_times := small i
  have delay := lookahead vm i (kept.imp_left Ne.symm)
  constructor
  · apply (Nat.le_div_iff_mul_le (Nat.succ_pos 999999)).mpr
    omega
  · omega

theorem Iteration.raises {state next : State VM_NUMBER} {vm : Fin VM_NUMBER} {slice : Slice}
    (iteration : Iteration links state vm slice next) (chosen : current_vm_index state.virtual_clocks_ns = some vm)
    (obeyed : Obeyed links state slice) :
    Rounds.Raises (L * 1000000) state.virtual_clocks_ns vm next.virtual_clocks_ns := by
  obtain ⟨small, reported⟩ := obeyed vm chosen
  obtain ⟨duration, found, _⟩ := Option.bind_eq_some_iff.mp iteration.bound
  obtain ⟨fits, ended⟩ := reported duration found
  obtain ⟨enough, bounded⟩ := lookahead_le_duration lookahead (current_vm_index_le chosen) small found
  rw [commanded_duration_ms_eq bounded fits] at ended
  refine ⟨current_vm_index_le chosen, ?_, ?_⟩
  · rw [iteration.clocks, Function.update_self]
    calc state.virtual_clocks_ns vm + L * 1000000 ≤ state.virtual_clocks_ns vm + duration_ms duration * 1000000 :=
          Nat.add_le_add_left (Nat.mul_le_mul_right _ enough) _
      _ ≤ slice.virtual_end_time_ns := ended
  · intro i other
    rw [iteration.clocks, Function.update_of_ne other]

theorem clocks_served {state final : State VM_NUMBER} {slices : List Slice}
    (every : Machine.Every (step links) (Obeyed links) state slices) (ran : Machine.run (step links) state slices = some final) :
    Rounds.Served (L * 1000000) slices.length state.virtual_clocks_ns final.virtual_clocks_ns := by
  induction slices generalizing state with
  | nil =>
    cases ran
    exact .rest _
  | cons slice slices ih =>
    obtain ⟨obeyed, later⟩ := every
    obtain ⟨next, taken, rest⟩ := (Machine.run_cons_iff (step links)).mp ran
    obtain ⟨vm, chosen, ⟨iteration⟩⟩ := step_iteration taken
    exact .step (iteration.raises lookahead chosen obeyed) (ih (later next taken) rest)

end

/-- From any state, `count` rounds raise the least clock by `count` times the
shortest delay, however skewed the clocks and the delays are. -/
theorem min_virtual_clock_progress (several : 2 ≤ VM_NUMBER) (lookahead : ∀ i j, i ≠ j → L ≤ links.inter_vm_delays_ms i j)
    {count : Nat} {state final : State VM_NUMBER} {slices : List Slice}
    (length : slices.length = count * VM_NUMBER) (every : Machine.Every (step links) (Obeyed links) state slices)
    (ran : Machine.run (step links) state slices = some final) :
    ∃ before after, min_virtual_clock state.virtual_clocks_ns = some before ∧
      min_virtual_clock final.virtual_clocks_ns = some after ∧ before + count * (L * 1000000) ≤ after := by
  have vms : List.finRange VM_NUMBER ≠ [] := by
    intro none
    have size := congrArg List.length none
    rw [List.length_finRange, List.length_nil] at size
    omega
  obtain ⟨first, chosen⟩ := Search.minElement_exists state.virtual_clocks_ns vms
  obtain ⟨last, least⟩ := Search.minElement_exists final.virtual_clocks_ns vms
  have served := clocks_served (fun i j other => lookahead i j (other.resolve_right (by omega))) every ran
  rw [length] at served
  have rounds : Rounds.Served (L * 1000000) (count * Fintype.card (Fin VM_NUMBER)) state.virtual_clocks_ns final.virtual_clocks_ns := by
    rwa [Fintype.card_fin]
  have raised := rounds.rounds (Nat.zero_le _) (current_vm_index_le chosen) last
  refine ⟨_, _, congrArg _ chosen, congrArg _ least, ?_⟩
  rwa [smul_eq_mul] at raised

private def uneven : Links 2 where
  inter_vm_delays_ms := ![![0, 2], ![5, 0]]

private def staggered : State 2 where
  virtual_clocks_ns := ![3000000, 0]

private def quiet_slices : List Slice :=
  [{ start_exec_time := 0, virtual_end_time_ns := 8200000, polls := [{ qmp_line := some "timestamp STOP" }] },
    { start_exec_time := 9000000, virtual_end_time_ns := 10300000, polls := [{ qmp_line := some "timestamp STOP" }] }]

set_option maxRecDepth 10000 in
/-- The second slice of 7.2 ms is commanded as 7 ms. -/
theorem min_virtual_clock_progress_two : ∃ final : State 2, Machine.run (step uneven) staggered quiet_slices = some final ∧
    ∃ before after, min_virtual_clock staggered.virtual_clocks_ns = some before ∧
      min_virtual_clock final.virtual_clocks_ns = some after ∧ before + 1 * (2 * 1000000) ≤ after :=
  ⟨_, rfl, @min_virtual_clock_progress 2 uneven 2 (by decide) (by decide) 1 staggered _ quiet_slices rfl (by decide +kernel) rfl⟩

end NetworkSimulator.Simulator
