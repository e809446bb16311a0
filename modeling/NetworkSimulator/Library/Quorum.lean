import Mathlib.Data.Fintype.Card
import Mathlib.Data.Finset.Powerset

/-! How much two large sets must have in common, and that they need not have more. -/

namespace Quorum
universe u
variable {α : Type u} [Fintype α] [DecidableEq α]

theorem overlap (first last : Finset α) : first.card + last.card ≤ (first ∩ last).card + Fintype.card α := by
  have union := Finset.card_le_univ (first ∪ last)
  have counted := Finset.card_union_add_card_inter first last
  omega

/-- Sets of one size that overlap as little as sets of that size can. -/
theorem least_overlap {size : Nat} (inside : size ≤ Fintype.card α) :
    ∃ first last : Finset α, first.card = size ∧ last.card = size ∧ (first ∩ last).card = 2 * size - Fintype.card α := by
  obtain ⟨first, _, count⟩ := Finset.exists_subset_card_eq (s := (Finset.univ : Finset α)) (n := size) (by simpa using inside)
  have others : firstᶜ.card = Fintype.card α - size := by rw [Finset.card_compl, count]
  by_cases half : size ≤ Fintype.card α - size
  · obtain ⟨last, apart, same⟩ := Finset.exists_subset_card_eq (s := firstᶜ) (n := size) (by omega)
    have disjoint : first ∩ last = ∅ := by
      apply Finset.eq_empty_of_forall_notMem
      intro member found
      obtain ⟨left, right⟩ := Finset.mem_inter.mp found
      exact Finset.mem_compl.mp (apart right) left
    refine ⟨first, last, count, same, ?_⟩
    rw [disjoint, Finset.card_empty]
    omega
  · obtain ⟨last, covers, _, same⟩ := Finset.exists_subsuperset_card_eq (Finset.subset_univ firstᶜ) (n := size) (by omega)
      (by simpa using inside)
    have everything : first ∪ last = Finset.univ := by
      apply Finset.eq_univ_of_forall
      intro member
      by_cases left : member ∈ first
      · exact Finset.mem_union_left _ left
      · exact Finset.mem_union_right _ (covers (Finset.mem_compl.mpr left))
    have counted := Finset.card_union_add_card_inter first last
    rw [everything, Finset.card_univ] at counted
    exact ⟨first, last, count, same, by omega⟩

end Quorum
