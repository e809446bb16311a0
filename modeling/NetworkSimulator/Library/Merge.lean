import Mathlib.Data.List.TakeWhile
import Mathlib.Logic.Function.Basic

/-! Bounded merging of keyed queues: as long as some head is within the limit,
a least head is taken. The relation leaves open how the heads are compared. -/

namespace Merge
universe u v
variable {ι : Type u} {α : Type v} [DecidableEq ι] {key : α → Nat} {limit : Nat}

/-- What was taken from queue `j`. -/
def taken (picks : List (ι × α)) (j : ι) : List α := (picks.filter fun pick => pick.1 = j).map Prod.snd

theorem taken_cons (pick : ι × α) (picks : List (ι × α)) (j : ι) :
    taken (pick :: picks) j = if pick.1 = j then pick.2 :: taken picks j else taken picks j := by
  by_cases same : pick.1 = j <;> simp [taken, same]

theorem taken_append (first last : List (ι × α)) (j : ι) : taken (first ++ last) j = taken first j ++ taken last j := by
  simp [taken]

theorem mem_taken {picks : List (ι × α)} {j : ι} {x : α} : x ∈ taken picks j ↔ (j, x) ∈ picks := by
  simp only [taken, List.mem_map, List.mem_filter, decide_eq_true_eq, Prod.exists]
  constructor
  · intro found
    obtain ⟨k, y, ⟨member, rfl⟩, rfl⟩ := found
    exact member
  · exact fun member => ⟨j, x, ⟨member, rfl⟩, rfl⟩

/-- Taking least heads within the limit until there are none. -/
inductive Extraction (key : α → Nat) (limit : Nat) : (ι → List α) → List (ι × α) → (ι → List α) → Prop where
  | done {queues : ι → List α} (above : ∀ j x rest, queues j = x :: rest → limit < key x) :
      Extraction key limit queues [] queues
  | next {queues after : ι → List α} {j : ι} {x : α} {rest : List α} {picks : List (ι × α)}
      (head : queues j = x :: rest) (within : key x ≤ limit) (least : ∀ k y tail, queues k = y :: tail → key x ≤ key y)
      (later : Extraction key limit (Function.update queues j rest) picks after) :
      Extraction key limit queues ((j, x) :: picks) after

variable {queues after : ι → List α} {picks : List (ι × α)}

/-- Each queue is what was taken from it followed by what is left. -/
theorem Extraction.split (extraction : Extraction key limit queues picks after) (j : ι) :
    queues j = taken picks j ++ after j := by
  induction extraction with
  | done above => rfl
  | @next queues after k x rest picks head within least later ih =>
    rw [taken_cons]
    by_cases same : k = j
    · subst same
      rw [Function.update_self] at ih
      rw [head, if_pos rfl, ih, List.cons_append]
    · rw [Function.update_of_ne (Ne.symm same)] at ih
      rw [if_neg same, ih]

theorem Extraction.within (extraction : Extraction key limit queues picks after) {j : ι} {x : α}
    (member : (j, x) ∈ picks) : key x ≤ limit := by
  induction extraction with
  | done above => cases member
  | next head within least later ih =>
    rcases List.mem_cons.mp member with same | further
    · cases same
      exact within
    · exact ih further

theorem Extraction.above (extraction : Extraction key limit queues picks after) {j : ι} {x : α} {rest : List α}
    (head : after j = x :: rest) : limit < key x := by
  induction extraction with
  | done above => exact above j x rest head
  | next _ _ _ _ ih => exact ih head

/-- The longest prefix within the limit is taken from every queue. -/
theorem Extraction.taken_eq (extraction : Extraction key limit queues picks after) (j : ι) :
    taken picks j = (queues j).takeWhile fun x => decide (key x ≤ limit) := by
  have all : ∀ x ∈ taken picks j, decide (key x ≤ limit) = true :=
    fun x member => decide_eq_true (extraction.within (mem_taken.mp member))
  rw [extraction.split j, List.takeWhile_append_of_pos all]
  cases left : after j with
  | nil => simp
  | cons x rest =>
    have beyond := extraction.above left
    simp [Nat.not_le.mpr beyond]

theorem Extraction.after_eq (extraction : Extraction key limit queues picks after) (j : ι) :
    after j = (queues j).dropWhile fun x => decide (key x ≤ limit) := by
  have whole := List.takeWhile_append_dropWhile (p := fun x => decide (key x ≤ limit)) (l := queues j)
  rw [← extraction.taken_eq j] at whole
  exact List.append_cancel_left ((extraction.split j).symm.trans whole.symm)

theorem Extraction.mem_queue (extraction : Extraction key limit queues picks after) {j : ι} {x : α}
    (member : (j, x) ∈ picks) : x ∈ queues j := by
  rw [extraction.split j]
  exact List.mem_append_left _ (mem_taken.mpr member)

section Sorted
variable (extraction : Extraction key limit queues picks after) (sorted : ∀ j, (queues j).Pairwise fun a b => key a ≤ key b)
include extraction sorted

theorem Extraction.sorted_after (j : ι) : (after j).Pairwise fun a b => key a ≤ key b := by
  have whole := sorted j
  rw [extraction.split j] at whole
  exact (List.pairwise_append.mp whole).2.1

/-- Nothing within the limit is left behind in a sorted queue. -/
theorem Extraction.rest_above {j : ι} {x : α} (member : x ∈ after j) : limit < key x := by
  have ordered := extraction.sorted_after sorted j
  cases left : after j with
  | nil => simp [left] at member
  | cons head tail =>
    have first := extraction.above left
    rw [left] at member ordered
    rcases List.mem_cons.mp member with rfl | later
    · exact first
    · exact Nat.lt_of_lt_of_le first ((List.pairwise_cons.mp ordered).1 x later)

/-- From a sorted queue everything within the limit is taken. -/
theorem Extraction.taken_filter (j : ι) : taken picks j = (queues j).filter fun x => decide (key x ≤ limit) := by
  rw [extraction.split j, List.filter_append]
  have front : (taken picks j).filter (fun x => decide (key x ≤ limit)) = taken picks j :=
    List.filter_eq_self.mpr fun x member => decide_eq_true (extraction.within (mem_taken.mp member))
  have back : (after j).filter (fun x => decide (key x ≤ limit)) = [] :=
    List.filter_eq_nil_iff.mpr fun x member => by simpa using extraction.rest_above sorted member
  rw [front, back, List.append_nil]

/-- Merging sorted queues yields a sorted sequence. -/
theorem Extraction.sorted_picks : picks.Pairwise fun a b => key a.2 ≤ key b.2 := by
  induction extraction with
  | done above => exact List.Pairwise.nil
  | @next queues after k x rest picks head within least later ih =>
    have shorter (j : ι) : (Function.update queues k rest j).Pairwise fun a b => key a ≤ key b := by
      by_cases same : j = k
      · subst same
        have ordered := sorted j
        rw [head] at ordered
        rw [Function.update_self]
        exact (List.pairwise_cons.mp ordered).2
      · rw [Function.update_of_ne same]
        exact sorted j
    refine List.pairwise_cons.mpr ⟨?_, ih shorter⟩
    intro found member
    obtain ⟨j, y⟩ := found
    have present : y ∈ queues j := by
      have remaining := later.mem_queue member
      by_cases same : j = k
      · subst same
        rw [Function.update_self] at remaining
        rw [head]
        exact List.mem_cons_of_mem _ remaining
      · rwa [Function.update_of_ne same] at remaining
    cases front : queues j with
    | nil => simp [front] at present
    | cons first tail =>
      have below := least j first tail front
      have ordered := sorted j
      rw [front] at present ordered
      rcases List.mem_cons.mp present with rfl | further
      · exact below
      · exact below.trans ((List.pairwise_cons.mp ordered).1 y further)

end Sorted
end Merge
