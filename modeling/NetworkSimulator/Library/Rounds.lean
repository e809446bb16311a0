import Mathlib.Algebra.Order.Monoid.Defs
import Mathlib.Data.Fintype.Card

/-! Serving a least entry first. Each step raises one least entry by some gain
and leaves the others alone, so a round of as many steps as there are entries
raises the minimum by the gain, whatever the entries are and however ties go. -/

namespace Rounds
universe u v
variable {ι : Type u} {α : Type v} [LinearOrder α]

/-- One step: a least entry grows by at least the gain. -/
structure Raises [Add α] (gain : α) (before : ι → α) (chosen : ι) (after : ι → α) : Prop where
  least : ∀ i, before chosen ≤ before i
  grown : before chosen + gain ≤ after chosen
  others : ∀ i, i ≠ chosen → after i = before i

/-- A number of steps in a row. -/
inductive Served [Add α] (gain : α) : Nat → (ι → α) → (ι → α) → Prop where
  | rest (entries : ι → α) : Served gain 0 entries entries
  | step {steps : Nat} {before middle after : ι → α} {chosen : ι} (raised : Raises gain before chosen middle)
      (later : Served gain steps middle after) : Served gain (steps + 1) before after

/-- Where a run is cut does not matter. -/
theorem Served.split [Add α] {gain : α} {first last : Nat} {before after : ι → α} (served : Served gain (first + last) before after) :
    ∃ middle, Served gain first before middle ∧ Served gain last middle after := by
  induction first generalizing before with
  | zero =>
    rw [Nat.zero_add] at served
    exact ⟨before, .rest before, served⟩
  | succ first ih =>
    rw [Nat.succ_add] at served
    cases served with
    | step raised later =>
      obtain ⟨middle, earlier, rest⟩ := ih later
      exact ⟨middle, .step raised earlier, rest⟩

/-- The entries that have not reached a floor. -/
def lagging [Fintype ι] (floor : α) (entries : ι → α) : Finset ι := Finset.univ.filter fun i => entries i < floor

theorem mem_lagging [Fintype ι] {floor : α} {entries : ι → α} {i : ι} : i ∈ lagging floor entries ↔ entries i < floor := by
  simp only [lagging, Finset.mem_filter, Finset.mem_univ, true_and]

variable [AddCommMonoid α] [IsOrderedAddMonoid α] {gain : α} {before after : ι → α} {chosen : ι}

theorem Raises.mono (forward : 0 ≤ gain) (raised : Raises gain before chosen after) (i : ι) : before i ≤ after i := by
  by_cases current : i = chosen
  · subst current
    calc before i ≤ before i + gain := le_add_of_nonneg_right forward
      _ ≤ after i := raised.grown
  · exact (raised.others i current).ge

variable [Fintype ι]

/-- A step never lets the minimum fall, and it takes one entry over any floor
that is within the gain of the minimum. -/
theorem Raises.lagging_card (raised : Raises gain before chosen after) {low : α} (bound : ∀ i, low ≤ before i) :
    (lagging (low + gain) after).card ≤ (lagging (low + gain) before).card - 1 := by
  classical
  have reached : chosen ∉ lagging (low + gain) after := by
    rw [mem_lagging]
    exact ((add_le_add_left (bound chosen) gain).trans raised.grown).not_gt
  have subset : lagging (low + gain) after ⊆ (lagging (low + gain) before).erase chosen := by
    intro i member
    have different : i ≠ chosen := fun same => reached (same ▸ member)
    have short := mem_lagging.mp member
    rw [raised.others i different] at short
    exact Finset.mem_erase.mpr ⟨different, mem_lagging.mpr short⟩
  by_cases empty : (lagging (low + gain) before).Nonempty
  · obtain ⟨i, short⟩ := empty
    have first : chosen ∈ lagging (low + gain) before :=
      mem_lagging.mpr ((raised.least i).trans_lt (mem_lagging.mp short))
    calc (lagging (low + gain) after).card ≤ ((lagging (low + gain) before).erase chosen).card := Finset.card_le_card subset
      _ = (lagging (low + gain) before).card - 1 := Finset.card_erase_of_mem first
  · have none := Finset.not_nonempty_iff_eq_empty.mp empty
    rw [none] at subset ⊢
    exact (Finset.card_le_card subset).trans (by simp)

variable (forward : 0 ≤ gain)
include forward

theorem Served.lagging_card {steps : Nat} (served : Served gain steps before after) {low : α} (bound : ∀ i, low ≤ before i) :
    (lagging (low + gain) after).card ≤ (lagging (low + gain) before).card - steps := by
  induction served with
  | rest => exact (Nat.sub_zero _).ge
  | step raised later ih =>
    have fewer := raised.lagging_card bound
    have rest := ih fun i => (bound i).trans (raised.mono forward i)
    omega

omit [Fintype ι] in
theorem Served.mono {steps : Nat} (served : Served gain steps before after) (i : ι) : before i ≤ after i := by
  induction served with
  | rest => exact le_rfl
  | step raised _ ih => exact (raised.mono forward i).trans ih

/-- A round takes every entry over the old minimum plus the gain. -/
theorem Served.round (served : Served gain (Fintype.card ι) before after) {low : α} (bound : ∀ i, low ≤ before i) (i : ι) :
    low + gain ≤ after i := by
  have few : (lagging (low + gain) before).card ≤ Fintype.card ι := Finset.card_le_univ _
  have none : lagging (low + gain) after = ∅ := by
    apply Finset.card_eq_zero.mp
    have left := served.lagging_card forward bound
    omega
  apply le_of_not_gt
  intro short
  have member := mem_lagging.mpr short
  rw [none] at member
  cases member

theorem Served.rounds {count : Nat} (served : Served gain (count * Fintype.card ι) before after) {low : α}
    (bound : ∀ i, low ≤ before i) (i : ι) : low + count • gain ≤ after i := by
  induction count generalizing before low with
  | zero =>
    rw [Nat.zero_mul] at served
    cases served
    rw [zero_nsmul, add_zero]
    exact bound i
  | succ count ih =>
    rw [Nat.succ_mul, Nat.add_comm] at served
    obtain ⟨middle, earlier, later⟩ := served.split
    have raised := ih later (earlier.round forward bound)
    rwa [add_assoc, ← succ_nsmul'] at raised

end Rounds
