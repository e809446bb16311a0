import NetworkSimulator.Library.Machine
import NetworkSimulator.Proofs.SliceEffects
import NetworkSimulator.Proofs.VirtualTime
import Mathlib.Data.Fin.VecNotation

/-! The unsigned arithmetic of the scheduler. A slice that ends in its bounds keeps
every clock within a link delay of the others, and with the rule for the next
slice that makes a round trip, which fits the `int` of the command. -/

namespace NetworkSimulator.Simulator
variable {VM_NUMBER : Nat} {links : Links VM_NUMBER}

/-- No VM is ahead of another by more than what a frame takes to reach it. -/
def Coupled (links : Links VM_NUMBER) (virtual_clocks_ns : Fin VM_NUMBER → Nat) : Prop :=
  ∀ i j, i ≠ j → virtual_clocks_ns i ≤ virtual_clocks_ns j + links.inter_vm_delays_ms i j * 1000000

/-- A double holds every time the scheduler computes. -/
def Ranged (links : Links VM_NUMBER) (virtual_clocks_ns : Fin VM_NUMBER → Nat) : Prop :=
  ∀ i j, i ≠ j → virtual_clocks_ns j + links.inter_vm_delays_ms i j * 1000000 < 2 ^ 53

/-- The slice ends between its start clock and the end it is given. -/
def Bounded (links : Links VM_NUMBER) (state : State VM_NUMBER) (slice : Slice) : Prop :=
  Ranged links state.virtual_clocks_ns ∧
  ∀ vm ∈ current_vm_index state.virtual_clocks_ns, ∀ limit ∈ end_of_time_slice_ns links state.virtual_clocks_ns vm,
    state.virtual_clocks_ns vm ≤ slice.virtual_end_time_ns ∧ slice.virtual_end_time_ns ≤ limit

instance (virtual_clocks_ns : Fin VM_NUMBER → Nat) : Decidable (Coupled links virtual_clocks_ns) :=
  inferInstanceAs (Decidable (∀ i j, i ≠ j → virtual_clocks_ns i ≤ _))

instance (virtual_clocks_ns : Fin VM_NUMBER → Nat) : Decidable (Ranged links virtual_clocks_ns) :=
  inferInstanceAs (Decidable (∀ i j, i ≠ j → virtual_clocks_ns j + _ < _))

instance (state : State VM_NUMBER) (slice : Slice) : Decidable (Bounded links state slice) :=
  inferInstanceAs (Decidable (Ranged _ _ ∧ ∀ vm ∈ current_vm_index _, ∀ limit ∈ end_of_time_slice_ns _ _ vm, _ ∧ _))

theorem Iteration.coupled {state next : State VM_NUMBER} {vm : Fin VM_NUMBER} {slice : Slice}
    (iteration : Iteration links state vm slice next) (chosen : current_vm_index state.virtual_clocks_ns = some vm)
    (bounded : Bounded links state slice) (before : Coupled links state.virtual_clocks_ns) :
    Coupled links next.virtual_clocks_ns := by
  obtain ⟨ranged, ended⟩ := bounded
  obtain ⟨forward, within⟩ := ended vm chosen iteration.limit iteration.bound
  intro i j other
  rw [iteration.clocks]
  by_cases current : i = vm
  · subst current
    have reach := limit_le (current_vm_index_le chosen j) (ranged i j other) iteration.bound other.symm
    rw [Function.update_self, Function.update_of_ne other.symm]
    exact within.trans reach
  · rw [Function.update_of_ne current]
    by_cases target : j = vm
    · -- The clock that is compared with only goes up.
      subst target
      rw [Function.update_self]
      exact (before i j other).trans (Nat.add_le_add_right forward _)
    · rw [Function.update_of_ne target]
      exact before i j other

theorem coupled_run {initial final : State VM_NUMBER} {slices : List Slice} (start : Coupled links initial.virtual_clocks_ns)
    (every : Machine.Every (step links) (Bounded links) initial slices)
    (ran : Machine.run (step links) initial slices = some final) : Coupled links final.virtual_clocks_ns := by
  apply every.invariant (fun state => Coupled links state.virtual_clocks_ns) start _ ran
  intro state slice next before bounded taken
  obtain ⟨vm, chosen, ⟨iteration⟩⟩ := step_iteration taken
  exact iteration.coupled chosen bounded before

/-- With two VMs there is a duration to choose. -/
theorem duration_to_run_ns_exists (several : 2 ≤ VM_NUMBER) (links : Links VM_NUMBER) (virtual_clocks_ns : Fin VM_NUMBER → Nat)
    (vm : Fin VM_NUMBER) :
    ∃ duration, duration_to_run_ns links virtual_clocks_ns vm = some duration := by
  obtain ⟨other, different⟩ : ∃ other : Fin VM_NUMBER, other ≠ vm := by
    by_cases first : vm.val = 0
    · exact ⟨⟨1, several⟩, fun same => by simp [← same] at first⟩
    · exact ⟨⟨0, by omega⟩, fun same => first (by simp [← same])⟩
  have listed : duration links virtual_clocks_ns vm other ∈ durations_to_run_ns links virtual_clocks_ns vm :=
    List.mem_map_of_mem (List.mem_filter.mpr ⟨List.mem_finRange other, decide_eq_true (Or.inl different)⟩)
  exact Search.minElement_exists id (List.ne_nil_of_mem listed)

/-- The clock behind cannot be further behind than one delay, and the slice adds
the delay of the way back. -/
theorem duration_le_round_trip {virtual_clocks_ns : Fin VM_NUMBER → Nat} {vm j : Fin VM_NUMBER} {duration : Nat}
    (coupled : Coupled links virtual_clocks_ns) (ranged : Ranged links virtual_clocks_ns)
    (chosen : current_vm_index virtual_clocks_ns = some vm) (other : j ≠ vm)
    (found : duration_to_run_ns links virtual_clocks_ns vm = some duration) :
    duration ≤ (links.inter_vm_delays_ms vm j + links.inter_vm_delays_ms j vm) * 1000000 := by
  have bound : end_of_time_slice_ns links virtual_clocks_ns vm = some (virtual_clocks_ns vm + duration) := by
    simp only [end_of_time_slice_ns, found, Option.bind_eq_bind, Option.bind_some]
  have reach := limit_le (current_vm_index_le chosen j) (ranged vm j other.symm) bound other
  have ahead := coupled j vm other
  rw [Nat.add_mul]
  omega

/-- Every subtraction of `min_virtual_clock` is exact, the duration is no longer
than any round trip of the chosen VM, and its milliseconds are an `int`. -/
theorem slice_range (several : 2 ≤ VM_NUMBER)
    (round_trips : ∀ i j, i ≠ j → links.inter_vm_delays_ms i j + links.inter_vm_delays_ms j i < 2 ^ 31)
    {initial final : State VM_NUMBER} {slices : List Slice} (start : Coupled links initial.virtual_clocks_ns)
    (every : Machine.Every (step links) (Bounded links) initial slices)
    (ran : Machine.run (step links) initial slices = some final) (ranged : Ranged links final.virtual_clocks_ns) :
    ∃ vm duration_ns, current_vm_index final.virtual_clocks_ns = some vm ∧
      duration_to_run_ns links final.virtual_clocks_ns vm = some duration_ns ∧
      (∀ j, j ≠ vm →
        Binary64.round (final.virtual_clocks_ns vm) ≤
          delayed (final.virtual_clocks_ns j) (links.inter_vm_delays_ms vm j) ∧
        final.virtual_clocks_ns vm + duration links final.virtual_clocks_ns vm j =
          final.virtual_clocks_ns j + links.inter_vm_delays_ms vm j * 1000000 ∧
        duration_ns ≤ (links.inter_vm_delays_ms vm j + links.inter_vm_delays_ms j vm) * 1000000) ∧
      commanded_duration_ms duration_ns = duration_ns / 1000000 ∧ duration_ns / 1000000 < 2 ^ 31 := by
  have coupled := coupled_run start every ran
  have vms : List.finRange VM_NUMBER ≠ [] := List.ne_nil_of_mem (List.mem_finRange (⟨0, by omega⟩ : Fin VM_NUMBER))
  obtain ⟨vm, chosen⟩ := Search.minElement_exists final.virtual_clocks_ns vms
  obtain ⟨duration_ns, found⟩ := duration_to_run_ns_exists several links final.virtual_clocks_ns vm
  have round_trip (j : Fin VM_NUMBER) (other : j ≠ vm) := duration_le_round_trip coupled ranged chosen other found
  obtain ⟨j, listed, _⟩ := List.mem_map.mp (Search.minElement_mem found)
  have other : j ≠ vm := by
    have kept := (List.mem_filter.mp listed).2
    rw [decide_eq_true_eq] at kept
    exact kept.resolve_right (by omega)
  have fits : duration_ms duration_ns < 2 ^ 31 := by
    apply Nat.lt_of_le_of_lt _ (round_trips vm j other.symm)
    exact Nat.div_le_of_le_mul (by rw [Nat.mul_comm]; exact round_trip j other)
  have short : duration_ns < 2 ^ 53 := by
    have trip := round_trip j other
    have limited := round_trips vm j other.symm
    omega
  refine ⟨vm, duration_ns, chosen, found, fun j other => ?_, commanded_duration_ms_eq short fits, fits⟩
  have behind := current_vm_index_le chosen j
  have small := ranged vm j other.symm
  refine ⟨?_, clock_add_duration behind small, round_trip j other⟩
  rw [delayed_small small, Binary64.round_small (by omega)]
  omega

private def lopsided : Links 2 where
  inter_vm_delays_ms := ![![0, 2], ![5, 0]]

private def leading : State 2 where
  virtual_clocks_ns := ![2000000, 0]

private def brief_slices : List Slice :=
  [{ start_exec_time := 0, virtual_end_time_ns := 7000000, polls := [{ qmp_line := some "timestamp STOP" }] },
    { start_exec_time := 9000000, virtual_end_time_ns := 8000000, polls := [{ qmp_line := some "timestamp STOP" }] }]

/-- After a slice of each, VM 1 is to run for 6 of the 7 ms of its round trip. -/
theorem slice_range_two : ∃ final : State 2, Machine.run (step lopsided) leading brief_slices = some final ∧
    ∃ vm duration_ns, current_vm_index final.virtual_clocks_ns = some vm ∧
      duration_to_run_ns lopsided final.virtual_clocks_ns vm = some duration_ns ∧
      (∀ j, j ≠ vm →
        Binary64.round (final.virtual_clocks_ns vm) ≤
          delayed (final.virtual_clocks_ns j) (lopsided.inter_vm_delays_ms vm j) ∧
        final.virtual_clocks_ns vm + duration lopsided final.virtual_clocks_ns vm j =
          final.virtual_clocks_ns j + lopsided.inter_vm_delays_ms vm j * 1000000 ∧
        duration_ns ≤ (lopsided.inter_vm_delays_ms vm j + lopsided.inter_vm_delays_ms j vm) * 1000000) ∧
      commanded_duration_ms duration_ns = duration_ns / 1000000 ∧ duration_ns / 1000000 < 2 ^ 31 :=
  ⟨_, rfl, @slice_range 2 lopsided (by decide) (by decide) leading _ brief_slices (by decide +kernel) (by decide +kernel) rfl
    (by decide +kernel)⟩

end NetworkSimulator.Simulator
