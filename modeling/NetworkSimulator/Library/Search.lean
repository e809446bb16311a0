import Mathlib.Data.List.TakeWhile
import Mathlib.Data.List.Pairwise

/-! The least element of a sequence and binary search in one, as standard
libraries define them: ties go to the first element, and a search runs on any
sequence but finds the boundary only in a partitioned one. -/

namespace Search
universe u
variable {α : Type u}

/-- The first element with the least key. -/
def minElement (key : α → Nat) : List α → Option α
  | [] => none
  | x :: xs => some (xs.foldl (fun best y => if key y < key best then y else best) x)

private theorem fold_least (key : α → Nat) (xs : List α) (start : α) :
    let found := xs.foldl (fun best y => if key y < key best then y else best) start
    (found = start ∨ found ∈ xs) ∧ key found ≤ key start ∧ ∀ y ∈ xs, key found ≤ key y := by
  induction xs generalizing start with
  | nil => simp
  | cons x xs ih =>
    simp only [List.foldl_cons, List.mem_cons, forall_eq_or_imp]
    split
    next less =>
      obtain ⟨origin, least, rest⟩ := ih x
      exact ⟨Or.inr (origin.imp id id), least.trans less.le, least, rest⟩
    next kept =>
      obtain ⟨origin, least, rest⟩ := ih start
      exact ⟨origin.imp id Or.inr, least, least.trans (Nat.le_of_not_lt kept), rest⟩

theorem minElement_mem {key : α → Nat} {xs : List α} {x : α} (found : minElement key xs = some x) : x ∈ xs := by
  cases xs with
  | nil => cases found
  | cons first rest =>
    cases found
    exact List.mem_cons.mpr (fold_least key rest first).1

theorem minElement_le {key : α → Nat} {xs : List α} {x y : α} (found : minElement key xs = some x) (member : y ∈ xs) :
    key x ≤ key y := by
  cases xs with
  | nil => cases found
  | cons first rest =>
    cases found
    obtain ⟨_, least, others⟩ := fold_least key rest first
    rcases List.mem_cons.mp member with rfl | later
    · exact least
    · exact others y later

theorem minElement_exists (key : α → Nat) {xs : List α} (nonempty : xs ≠ []) : ∃ x, minElement key xs = some x := by
  cases xs with
  | nil => exact absurd rfl nonempty
  | cons first rest => exact ⟨_, rfl⟩

private theorem fold_first (key : α → Nat) (xs : List α) (start : α) :
    let found := xs.foldl (fun best y => if key y < key best then y else best) start
    found = start ∨ ∃ before after, xs = before ++ found :: after ∧ key found < key start ∧ ∀ y ∈ before, key found < key y := by
  induction xs generalizing start with
  | nil => exact Or.inl rfl
  | cons x xs ih =>
    simp only [List.foldl_cons]
    split
    next less =>
      cases ih x with
      | inl same => exact Or.inr ⟨[], xs, by rw [same, List.nil_append], by rwa [same], by simp⟩
      | inr later =>
        obtain ⟨before, after, shape, smaller, first⟩ := later
        refine Or.inr ⟨x :: before, after, by rw [List.cons_append, ← shape], smaller.trans less, ?_⟩
        exact List.forall_mem_cons.mpr ⟨smaller, first⟩
    next kept =>
      cases ih start with
      | inl same => exact Or.inl same
      | inr later =>
        obtain ⟨before, after, shape, smaller, first⟩ := later
        refine Or.inr ⟨x :: before, after, by rw [List.cons_append, ← shape], smaller, ?_⟩
        exact List.forall_mem_cons.mpr ⟨Nat.lt_of_lt_of_le smaller (Nat.le_of_not_lt kept), first⟩

/-- Ties go to the first element. -/
theorem minElement_first {key : α → Nat} {xs : List α} {x : α} (found : minElement key xs = some x) :
    ∃ before after, xs = before ++ x :: after ∧ ∀ y ∈ before, key x < key y := by
  cases xs with
  | nil => cases found
  | cons first rest =>
    cases found
    cases fold_first key rest first with
    | inl same => exact ⟨[], rest, by rw [same, List.nil_append], by simp⟩
    | inr later =>
      obtain ⟨before, after, shape, smaller, earlier⟩ := later
      exact ⟨first :: before, after, by rw [List.cons_append, ← shape], List.forall_mem_cons.mpr ⟨smaller, earlier⟩⟩

/-- Binary search for the first element after the value, in `count` elements
from `first` on. -/
def upperBoundFrom (after : α → Bool) (xs : List α) : Nat → Nat → Nat → Nat
  | 0, first, _ => first
  | fuel + 1, first, count =>
    if count = 0 then first
    else
      match xs[first + count / 2]? with
      | none => first
      | some x =>
        if after x then upperBoundFrom after xs fuel first (count / 2)
        else upperBoundFrom after xs fuel (first + count / 2 + 1) (count - count / 2 - 1)

def upperBound (after : α → Bool) (xs : List α) : Nat := upperBoundFrom after xs xs.length 0 xs.length

private theorem upperBoundFrom_le (after : α → Bool) (xs : List α) (fuel first count : Nat) :
    upperBoundFrom after xs fuel first count ≤ first + count := by
  induction fuel generalizing first count with
  | zero => exact Nat.le_add_right _ _
  | succ fuel ih =>
    rw [upperBoundFrom]
    split
    · exact Nat.le_add_right _ _
    · split
      · exact Nat.le_add_right _ _
      · split
        · have left := ih first (count / 2)
          omega
        · have right := ih (first + count / 2 + 1) (count - count / 2 - 1)
          omega

theorem upperBound_le (after : α → Bool) (xs : List α) : upperBound after xs ≤ xs.length := by
  have bound := upperBoundFrom_le after xs xs.length 0 xs.length
  rwa [Nat.zero_add] at bound

private theorem upperBoundFrom_partition {after : α → Bool} {front back : List α} (before : ∀ x ∈ front, after x = false)
    (behind : ∀ x ∈ back, after x = true) (fuel first count : Nat) (enough : count ≤ fuel) (low : first ≤ front.length)
    (high : front.length ≤ first + count) (inside : first + count ≤ (front ++ back).length) :
    upperBoundFrom after (front ++ back) fuel first count = front.length := by
  induction fuel generalizing first count with
  | zero =>
    simp only [upperBoundFrom]
    omega
  | succ fuel ih =>
    simp only [upperBoundFrom]
    split
    next none => omega
    next some =>
      have middle : first + count / 2 < (front ++ back).length := by omega
      rw [List.getElem?_eq_getElem middle]
      simp only
      by_cases left : first + count / 2 < front.length
      · have early : after (front ++ back)[first + count / 2] = false := by
          rw [List.getElem_append_left left]
          exact before _ (List.getElem_mem left)
        rw [early, if_neg Bool.false_ne_true]
        exact ih _ _ (by omega) (by omega) (by omega) (by omega)
      · have late : after (front ++ back)[first + count / 2] = true := by
          rw [List.getElem_append_right (by omega)]
          exact behind _ (List.getElem_mem _)
        rw [late, if_pos rfl]
        exact ih _ _ (by omega) (by omega) (by omega) (by omega)

/-- In a partitioned sequence the search finds the boundary. -/
theorem upperBound_partition {after : α → Bool} {front back : List α} (before : ∀ x ∈ front, after x = false)
    (behind : ∀ x ∈ back, after x = true) : upperBound after (front ++ back) = front.length :=
  upperBoundFrom_partition before behind _ 0 _ (Nat.le_refl _) (Nat.zero_le _) (by simp) (by simp)

/-- Where nothing is after the value, the search goes to the end, in any order. -/
theorem upperBound_all {after : α → Bool} {xs : List α} (before : ∀ x ∈ xs, after x = false) :
    upperBound after xs = xs.length := by
  have found := @upperBound_partition _ after xs [] before (by simp)
  rwa [List.append_nil] at found

/-- Two bounds in a row are the later one. -/
theorem takeWhile_step {early late : α → Bool} (weaker : ∀ x, early x = true → late x = true) (xs : List α) :
    xs.takeWhile early ++ (xs.dropWhile early).takeWhile late = xs.takeWhile late ∧
      (xs.dropWhile early).dropWhile late = xs.dropWhile late := by
  induction xs with
  | nil => exact ⟨rfl, rfl⟩
  | cons x xs ih =>
    by_cases passes : early x = true
    · simp [passes, weaker x passes, ih]
    · simp [passes]

/-- Where everything in front of a member passes with it, the members that pass
are a prefix. -/
theorem takeWhile_filter {passes : α → Bool} {xs : List α} (ordered : xs.Pairwise fun a b => passes b = true → passes a = true) :
    xs.takeWhile passes = xs.filter passes ∧ xs.dropWhile passes = xs.filter fun x => !passes x := by
  induction xs with
  | nil => exact ⟨rfl, rfl⟩
  | cons x xs ih =>
    obtain ⟨first, rest⟩ := List.pairwise_cons.mp ordered
    by_cases pass : passes x = true
    · simp [pass, ih rest]
    · have later (y : α) (member : y ∈ xs) : passes y = false := by
        simpa using fun passed => pass (first y member passed)
      have none : xs.filter passes = [] := List.filter_eq_nil_iff.mpr fun y member => by simp [later y member]
      have all : xs.filter (fun y => !passes y) = xs := List.filter_eq_self.mpr fun y member => by simp [later y member]
      simp [pass, none, all]

/-- In a sequence sorted by key, whatever follows the first larger key is larger. -/
theorem lt_of_mem_dropWhile {key : α → Nat} {xs : List α} (sorted : xs.Pairwise fun a b => key a ≤ key b) {value : Nat} {x : α}
    (member : x ∈ xs.dropWhile fun x => decide (key x ≤ value)) : value < key x := by
  cases rest : xs.dropWhile (fun x => decide (key x ≤ value)) with
  | nil => simp [rest] at member
  | cons head tail =>
    have large : ¬ key head ≤ value := by
      have refused := List.head_dropWhile_not (fun x => decide (key x ≤ value)) (l := xs) (by simp [rest])
      simpa [rest] using refused
    have ordered : (head :: tail).Pairwise fun a b => key a ≤ key b := by
      rw [← rest]
      exact sorted.sublist (List.dropWhile_sublist _)
    rw [rest] at member
    rcases List.mem_cons.mp member with rfl | later
    · exact Nat.lt_of_not_le large
    · have larger := (List.pairwise_cons.mp ordered).1 x later
      omega

/-- A sequence sorted by key is partitioned at every value. -/
theorem upperBound_sorted {key : α → Nat} {xs : List α} (sorted : xs.Pairwise fun a b => key a ≤ key b) (value : Nat) :
    upperBound (fun x => decide (value < key x)) xs = (xs.takeWhile fun x => decide (key x ≤ value)).length := by
  have split := List.takeWhile_append_dropWhile (p := fun x => decide (key x ≤ value)) (l := xs)
  have before : ∀ x ∈ xs.takeWhile (fun x => decide (key x ≤ value)), decide (value < key x) = false := by
    intro x member
    have small := List.mem_takeWhile_imp member
    simpa using small
  have behind : ∀ x ∈ xs.dropWhile (fun x => decide (key x ≤ value)), decide (value < key x) = true :=
    fun x member => decide_eq_true (lt_of_mem_dropWhile sorted member)
  calc upperBound (fun x => decide (value < key x)) xs =
        upperBound (fun x => decide (value < key x))
          (xs.takeWhile (fun x => decide (key x ≤ value)) ++ xs.dropWhile fun x => decide (key x ≤ value)) := by rw [split]
    _ = (xs.takeWhile fun x => decide (key x ≤ value)).length := upperBound_partition before behind

end Search
