import NetworkSimulator.Simulator.Slice

/-! The double arithmetic of the scheduler. Rounding is monotone, so the order of
times survives it at any size; below 2^53 it is exact. -/

namespace NetworkSimulator.Simulator
variable {VM_NUMBER : Nat} {links : Links VM_NUMBER} {virtual_clocks_ns : Fin VM_NUMBER → Nat} {vm : Fin VM_NUMBER} {limit : Nat}

theorem delayed_small {time delay : Nat} (small : time + delay * 1000000 < 2 ^ 53) : delayed time delay = time + delay * 1000000 := by
  have time_small : time < 2 ^ 53 := by omega
  have delay_small : delay * 1000000 < 2 ^ 53 := by omega
  rw [delayed, Binary64.round_small time_small, Binary64.round_small delay_small, Binary64.round_small small]

theorem delayed_mono {time later : Nat} (le : time ≤ later) (delay : Nat) : delayed time delay ≤ delayed later delay :=
  Binary64.round_mono (Nat.add_le_add_right (Binary64.round_mono le) _)

theorem delayed_round (time delay : Nat) : delayed (Binary64.round time) delay = delayed time delay := by
  rw [delayed, Binary64.round_round, delayed]

/-- A stamp is not before the clock the slice started with, up to rounding. -/
theorem clock_le_virtual_time (clock start now : Nat) : Binary64.round clock ≤ virtual_time clock start now := by
  calc Binary64.round clock = Binary64.round (Binary64.round clock) := (Binary64.round_round clock).symm
    _ ≤ virtual_time clock start now := Binary64.round_mono (Nat.le_add_left _ _)

theorem virtual_time_mono {now later : Nat} (clock start : Nat) (le : now ≤ later) :
    virtual_time clock start now ≤ virtual_time clock start later :=
  Binary64.round_mono (Nat.add_le_add_right (Binary64.round_mono (Nat.sub_le_sub_right le start)) _)

theorem current_vm_index_le (chosen : current_vm_index virtual_clocks_ns = some vm) (i : Fin VM_NUMBER) :
    virtual_clocks_ns vm ≤ virtual_clocks_ns i :=
  Search.minElement_le chosen (List.mem_finRange i)

theorem clock_le_limit (bound : end_of_time_slice_ns links virtual_clocks_ns vm = some limit) : virtual_clocks_ns vm ≤ limit := by
  obtain ⟨shortest, found, same⟩ := Option.bind_eq_some_iff.mp bound
  cases same
  exact Nat.le_add_right _ _

/-- Cutting the duration to whole milliseconds is integer division, in double
arithmetic too. -/
theorem commanded_duration_ms_eq {duration : Nat} (small : duration < 2 ^ 53) (fits : duration_ms duration < 2 ^ 31) :
    commanded_duration_ms duration = duration_ms duration := by
  rw [commanded_duration_ms, Binary64.round_small small]
  exact Binary64.truncatedQuotient_eq (by decide) (by decide) fits

section
variable {i : Fin VM_NUMBER} (behind : virtual_clocks_ns vm ≤ virtual_clocks_ns i)
  (small : virtual_clocks_ns i + links.inter_vm_delays_ms vm i * 1000000 < 2 ^ 53)
include behind small

theorem clock_add_duration :
    virtual_clocks_ns vm + duration links virtual_clocks_ns vm i =
      virtual_clocks_ns i + links.inter_vm_delays_ms vm i * 1000000 := by
  have clock_small : virtual_clocks_ns vm < 2 ^ 53 := by omega
  rw [duration, delayed_small small, Binary64.round_small clock_small, Binary64.round_small (by omega)]
  omega

/-- No slice goes past the clock of another VM plus the delay of its link. -/
theorem limit_le (bound : end_of_time_slice_ns links virtual_clocks_ns vm = some limit) (other : i ≠ vm) :
    limit ≤ virtual_clocks_ns i + links.inter_vm_delays_ms vm i * 1000000 := by
  obtain ⟨shortest, found, same⟩ := Option.bind_eq_some_iff.mp bound
  cases same
  have listed : duration links virtual_clocks_ns vm i ∈ durations_to_run_ns links virtual_clocks_ns vm :=
    List.mem_map_of_mem (List.mem_filter.mpr ⟨List.mem_finRange i, decide_eq_true (Or.inl other)⟩)
  have shorter := Search.minElement_le found listed
  rw [id_eq, id_eq] at shorter
  rw [← clock_add_duration behind small]
  exact Nat.add_le_add_left shorter _

end
end NetworkSimulator.Simulator
