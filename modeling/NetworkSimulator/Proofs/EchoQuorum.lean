import NetworkSimulator.Bracha.Node
import NetworkSimulator.Library.Quorum

/-! The echo threshold of the code against the one Bracha's argument needs. The
code accepts (n + t) / 2 Echoes where the argument takes more than that. -/

namespace NetworkSimulator.Bracha

/-- For every number of processes two sets that pass the echo test can share as
few as the tolerated faulty processes. -/
theorem echoQuorum_overlap_tolerated (config : Config) : ∃ first last : Finset (Fin config.process_number),
    config.echoQuorum ≤ first.card ∧ config.echoQuorum ≤ last.card ∧
      (first ∩ last).card ≤ config.max_byzantin_process_number := by
  have half : 2 * config.echoQuorum ≤ config.process_number + config.max_byzantin_process_number := Nat.mul_div_le _ 2
  have third : config.max_byzantin_process_number ≤ config.process_number := Nat.div_le_self _ 3
  have inside : config.echoQuorum ≤ Fintype.card (Fin config.process_number) := by
    rw [Fintype.card_fin]
    omega
  obtain ⟨first, last, size, same, overlap⟩ := Quorum.least_overlap inside
  rw [Fintype.card_fin] at overlap
  exact ⟨first, last, size.ge, same.ge, by omega⟩

/-- One Echo more would be enough. -/
theorem echoQuorum_succ_overlap (config : Config) {first last : Finset (Fin config.process_number)}
    (left : config.echoQuorum < first.card) (right : config.echoQuorum < last.card) :
    config.max_byzantin_process_number < (first ∩ last).card := by
  have overlap := Quorum.overlap first last
  rw [Fintype.card_fin] at overlap
  have half : config.process_number + config.max_byzantin_process_number < 2 * (config.echoQuorum + 1) :=
    Nat.lt_mul_div_succ _ Nat.zero_lt_two
  omega

/-- Two disjoint pairs of four processes both pass the echo test. -/
theorem echoQuorum_disjoint_four : ∃ first last : Finset (Fin 4), ∃ config : Config, config.process_number = 4 ∧
    config.max_byzantin_process_number = 1 ∧ config.echoQuorum ≤ first.card ∧ config.echoQuorum ≤ last.card ∧
      first ∩ last = ∅ :=
  ⟨{0, 1}, {2, 3}, ⟨0, 4, 1⟩, rfl, by decide, by decide, by decide, by decide⟩

end NetworkSimulator.Bracha
