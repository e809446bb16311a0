import Mathlib.Data.List.Induction
import Mathlib.Data.List.Nodup
import Mathlib.Logic.Function.Basic

/-! Tables that are filled one entry after the other. A later entry takes the place
of an earlier one under the same key. -/

namespace Table
universe u v
variable {κ : Type u} {ν : Type v} [DecidableEq κ]

def filled (entries : List (κ × ν)) : κ → Option ν :=
  entries.foldl (fun table entry => Function.update table entry.1 (some entry.2)) fun _ => none

theorem filled_concat (entries : List (κ × ν)) (key : κ) (value : ν) :
    filled (entries ++ [(key, value)]) = Function.update (filled entries) key (some value) := by
  rw [filled, List.foldl_append]
  rfl

theorem mem_of_filled {entries : List (κ × ν)} {key : κ} {value : ν} (found : filled entries key = some value) :
    (key, value) ∈ entries := by
  induction entries using List.reverseRecOn with
  | nil => cases found
  | append_singleton entries last ih =>
    rw [filled_concat] at found
    by_cases same : key = last.1
    · subst same
      rw [Function.update_self] at found
      cases found
      exact List.mem_append_right _ (List.mem_singleton_self _)
    · rw [Function.update_of_ne same] at found
      exact List.mem_append_left _ (ih found)

/-- With every key written once the table holds exactly the entries. -/
theorem filled_eq_some_iff {entries : List (κ × ν)} (distinct : (entries.map Prod.fst).Nodup) {key : κ} {value : ν} :
    filled entries key = some value ↔ (key, value) ∈ entries := by
  refine ⟨mem_of_filled, ?_⟩
  intro member
  induction entries using List.reverseRecOn with
  | nil => cases member
  | append_singleton entries last ih =>
    rw [List.map_append, List.nodup_append] at distinct
    obtain ⟨earlier, _, apart⟩ := distinct
    rw [filled_concat]
    rcases List.mem_append.mp member with before | final
    · have other : key ≠ last.1 := apart key (List.mem_map_of_mem before) last.1 (List.mem_singleton_self _)
      rw [Function.update_of_ne other]
      exact ih earlier before
    · cases List.mem_singleton.mp final
      exact Function.update_self ..

end Table
