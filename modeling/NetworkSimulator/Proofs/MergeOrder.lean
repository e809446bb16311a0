import NetworkSimulator.Proofs.SliceEffects
import Mathlib.Data.List.Pairwise

/-! The merge loop frame by frame. The comparison with the end of the slice stands
only before the first candidate, yet the pass over the queues selects what it
would select among the heads that are due: the least, the first on a tie. -/

namespace NetworkSimulator.Simulator
variable {VM_NUMBER : Nat} (queues : Fin VM_NUMBER → List FrameToDeliver) (limit : Nat)

def stamp (entry : Fin VM_NUMBER × FrameToDeliver) : Nat := entry.2.delivery_timestamp_ns

/-- The heads that are due, in the order in which the queues are visited. -/
def candidates (js : List (Fin VM_NUMBER)) : List (Fin VM_NUMBER × FrameToDeliver) :=
  js.filterMap fun j => ((queues j).head?.filter fun front => front.delivery_timestamp_ns ≤ limit).map (j, ·)

theorem mem_candidates {js : List (Fin VM_NUMBER)} {j : Fin VM_NUMBER} {front : FrameToDeliver} :
    (j, front) ∈ candidates queues limit js ↔
      j ∈ js ∧ (queues j).head? = some front ∧ front.delivery_timestamp_ns ≤ limit := by
  simp only [candidates, List.mem_filterMap, Option.map_eq_some_iff, Option.filter_eq_some_iff, decide_eq_true_eq,
    Prod.mk.injEq]
  constructor
  · intro found
    obtain ⟨k, listed, y, due, rfl, rfl⟩ := found
    exact ⟨listed, due⟩
  · intro found
    exact ⟨j, found.1, front, found.2, rfl, rfl⟩

theorem candidates_ordered {js : List (Fin VM_NUMBER)} (ordered : js.Pairwise (· < ·)) :
    (candidates queues limit js).Pairwise fun a b => a.1 < b.1 := by
  apply ordered.filterMap
  intro j k less a first b second
  obtain ⟨_, _, rfl⟩ := Option.map_eq_some_iff.mp first
  obtain ⟨_, _, rfl⟩ := Option.map_eq_some_iff.mp second
  exact less

theorem candidates_skip (js : List (Fin VM_NUMBER)) {j : Fin VM_NUMBER}
    (late : ∀ front, (queues j).head? = some front → limit < front.delivery_timestamp_ns) :
    candidates queues limit (j :: js) = candidates queues limit js := by
  apply List.filterMap_cons_none
  cases head : (queues j).head? with
  | none => rfl
  | some front =>
    have behind := late front head
    rw [Option.filter_some_neg (by simpa using behind), Option.map_none]

theorem candidates_take (js : List (Fin VM_NUMBER)) {j : Fin VM_NUMBER} {front : FrameToDeliver}
    (head : (queues j).head? = some front) (due : front.delivery_timestamp_ns ≤ limit) :
    candidates queues limit (j :: js) = (j, front) :: candidates queues limit js := by
  apply List.filterMap_cons_some
  rw [head, Option.filter_some_pos (by simpa using due), Option.map_some]

/-- A candidate that is due is never replaced by one that is not. -/
private theorem visits_some (js : List (Fin VM_NUMBER)) {best : Fin VM_NUMBER × FrameToDeliver} (within : stamp best ≤ limit) :
    js.foldl (visit queues limit) (some best) =
      some ((candidates queues limit js).foldl (fun best y => if stamp y < stamp best then y else best) best) := by
  induction js generalizing best with
  | nil => rfl
  | cons j js ih =>
    rw [List.foldl_cons]
    cases head : queues j with
    | nil =>
      have skipped := candidates_skip queues limit js (j := j) (by simp [head])
      rw [skipped, show visit queues limit (some best) j = some best by simp only [visit, head]]
      exact ih within
    | cons front rest =>
      by_cases due : front.delivery_timestamp_ns ≤ limit
      · have listed := candidates_take queues limit js (congrArg List.head? head) due
        have visited : visit queues limit (some best) j =
            some (if stamp (j, front) < stamp best then (j, front) else best) := by
          simp only [visit, head, stamp]
          exact (apply_ite some _ _ _).symm
        rw [listed, List.foldl_cons, visited]
        apply ih
        split
        · exact due
        · exact within
      · have skipped := candidates_skip queues limit js (j := j) (by simpa [head] using due)
        have later : ¬ front.delivery_timestamp_ns < best.2.delivery_timestamp_ns := by
          simp only [stamp] at within
          omega
        rw [skipped, show visit queues limit (some best) j = some best by simp only [visit, head, if_neg later]]
        exact ih within

private theorem visits_none (js : List (Fin VM_NUMBER)) :
    js.foldl (visit queues limit) none = Search.minElement stamp (candidates queues limit js) := by
  induction js with
  | nil => rfl
  | cons j js ih =>
    rw [List.foldl_cons]
    cases head : queues j with
    | nil =>
      have skipped := candidates_skip queues limit js (j := j) (by simp [head])
      rw [skipped, show visit queues limit none j = none by simp only [visit, head]]
      exact ih
    | cons front rest =>
      by_cases due : front.delivery_timestamp_ns ≤ limit
      · have listed := candidates_take queues limit js (congrArg List.head? head) due
        rw [listed, show visit queues limit none j = some (j, front) by simp only [visit, head, if_pos due]]
        exact visits_some queues limit js due
      · have skipped := candidates_skip queues limit js (j := j) (by simpa [head] using due)
        rw [skipped, show visit queues limit none j = none by simp only [visit, head, if_neg due]]
        exact ih

theorem min_queue_eq : min_queue queues limit = Search.minElement stamp (candidates queues limit (List.finRange VM_NUMBER)) :=
  visits_none queues limit _

variable {queues limit}

/-- The queue a pass selects: its head is due and least, and the heads of the
queues in front of it are all later. -/
theorem min_queue_first {j : Fin VM_NUMBER} {x : FrameToDeliver} (found : min_queue queues limit = some (j, x)) :
    (queues j).head? = some x ∧ x.delivery_timestamp_ns ≤ limit ∧
      ∀ k y, (queues k).head? = some y → x.delivery_timestamp_ns ≤ y.delivery_timestamp_ns ∧
        (k < j → x.delivery_timestamp_ns < y.delivery_timestamp_ns) := by
  rw [min_queue_eq] at found
  have selected := (mem_candidates queues limit).mp (Search.minElement_mem found)
  obtain ⟨before, after, split, earlier⟩ := Search.minElement_first found
  have ordered := candidates_ordered queues limit (List.pairwise_lt_finRange VM_NUMBER)
  refine ⟨selected.2.1, selected.2.2, fun k y head => ?_⟩
  by_cases due : y.delivery_timestamp_ns ≤ limit
  · have listed := (mem_candidates queues limit).mpr ⟨List.mem_finRange k, head, due⟩
    have least : stamp (j, x) ≤ stamp (k, y) := Search.minElement_le found listed
    refine ⟨least, fun less => ?_⟩
    rw [split] at listed ordered
    rcases List.mem_append.mp listed with front | rest
    · exact earlier _ front
    · rcases List.mem_cons.mp rest with same | behind
      · cases same
        exact absurd less (lt_irrefl _)
      · have greater := (List.pairwise_cons.mp (List.pairwise_append.mp ordered).2.1).1 _ behind
        exact absurd less greater.asymm
  · have bound := selected.2.2
    exact ⟨by omega, fun _ => by omega⟩

variable (queues) in
/-- The queues after some frames have been taken. -/
def remaining (picks : List (Fin VM_NUMBER × FrameToDeliver)) (k : Fin VM_NUMBER) : List FrameToDeliver :=
  (queues k).drop (Merge.taken picks k).length

/-- Every frame is the one the pass over the queues selects at that moment. -/
theorem merge_pick {fuel : Nat} {before after : List (Fin VM_NUMBER × FrameToDeliver)} {pick : Fin VM_NUMBER × FrameToDeliver}
    (split : (merge limit fuel queues).1 = before ++ pick :: after) : min_queue (remaining queues before) limit = some pick := by
  induction fuel generalizing queues before with
  | zero => simp [merge] at split
  | succ fuel ih =>
    rw [merge] at split
    cases found : min_queue queues limit with
    | none => simp [found] at split
    | some first =>
      simp only [found] at split
      cases before with
      | nil =>
        cases (List.cons.inj split).1
        exact found
      | cons earlier before =>
        obtain ⟨rfl, rest⟩ := List.cons.inj split
        rw [← ih rest]
        congr 1
        funext k
        simp only [remaining, Merge.taken_cons]
        by_cases same : first.1 = k
        · subst same
          rw [if_pos rfl, List.length_cons, Function.update_self, List.drop_tail]
        · rw [if_neg same, Function.update_of_ne (Ne.symm same)]

/-- Once a pass finds nothing, further passes would find nothing. -/
private theorem merge_more {fuel : Nat} (idle : min_queue (merge limit fuel queues).2 limit = none) (extra : Nat) :
    merge limit (fuel + extra) queues = merge limit fuel queues := by
  induction fuel generalizing queues with
  | zero =>
    have empty : min_queue queues limit = none := idle
    cases extra with
    | zero => rfl
    | succ extra => simp only [merge, empty]
  | succ fuel ih =>
    rw [Nat.succ_add, merge, merge]
    cases found : min_queue queues limit with
    | none => rfl
    | some pick =>
      rw [merge, found] at idle
      simp only [ih idle]

/-- The loop ends: it takes no more passes than there are frames, and one. -/
theorem merge_ends (limit : Nat) {fuel : Nat} (enough : frames queues < fuel) :
    min_queue (merge limit fuel queues).2 limit = none ∧ merge limit fuel queues = merge limit (frames queues + 1) queues := by
  have idle {fuel : Nat} (enough : frames queues < fuel) : min_queue (merge limit fuel queues).2 limit = none := by
    cases found : min_queue (merge limit fuel queues).2 limit with
    | none => rfl
    | some pick =>
      obtain ⟨head, due, _⟩ := min_queue_first (j := pick.1) (x := pick.2) found
      obtain ⟨rest, shape⟩ := List.head?_eq_some_iff.mp head
      have beyond := (merge_extraction limit enough).above shape
      omega
  refine ⟨idle enough, ?_⟩
  obtain ⟨extra, rfl⟩ := Nat.exists_eq_add_of_le (Nat.succ_le_of_lt enough)
  exact merge_more (idle (Nat.lt_succ_self _)) extra

/-- The merge is an exact bounded merge of any queues: it ends, takes from every
queue the frames in front of the first one after the limit, in their order, and
takes each time the least head, the first on a tie. -/
theorem merge_exact (limit : Nat) (queues : Fin VM_NUMBER → List FrameToDeliver) :
    ∃ deque_to_deliver rest, min_queue rest limit = none ∧
      (∀ fuel, frames queues < fuel → merge limit fuel queues = (deque_to_deliver, rest)) ∧
      (∀ j, Merge.taken deque_to_deliver j = (queues j).takeWhile (fun frame => decide (frame.delivery_timestamp_ns ≤ limit)) ∧
        rest j = (queues j).dropWhile fun frame => decide (frame.delivery_timestamp_ns ≤ limit)) ∧
      (∀ before after j x, deque_to_deliver = before ++ (j, x) :: after → (remaining queues before j).head? = some x ∧
        ∀ k y, (remaining queues before k).head? = some y → x.delivery_timestamp_ns ≤ y.delivery_timestamp_ns ∧
          (k < j → x.delivery_timestamp_ns < y.delivery_timestamp_ns)) ∧
      ((∀ j, (queues j).Pairwise fun a b => a.delivery_timestamp_ns ≤ b.delivery_timestamp_ns) → Sorted deque_to_deliver ∧
        ∀ j, Merge.taken deque_to_deliver j = (queues j).filter fun frame => decide (frame.delivery_timestamp_ns ≤ limit)) := by
  have enough := Nat.lt_succ_self (frames queues)
  have extraction := merge_extraction limit enough
  refine ⟨(merge limit (frames queues + 1) queues).1, (merge limit (frames queues + 1) queues).2, (merge_ends limit enough).1,
    fun fuel more => (merge_ends limit more).2, ?_, ?_, ?_⟩
  · exact fun j => ⟨extraction.taken_eq j, extraction.after_eq j⟩
  · intro before after j x split
    obtain ⟨head, _, least⟩ := min_queue_first (merge_pick split)
    exact ⟨head, least⟩
  · exact fun sorted => ⟨extraction.sorted_picks sorted, extraction.taken_filter sorted⟩

end NetworkSimulator.Simulator
