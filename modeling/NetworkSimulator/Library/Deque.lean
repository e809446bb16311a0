import Mathlib.Data.List.TakeWhile

/-! A double-ended queue whose iterators are positions. They count from the
first element that ever stood at the front, so popping the front moves no
iterator, and one that points to a popped element can still be advanced. -/

universe u

structure Deque (α : Type u) where
  first : Nat := 0
  items : List α

namespace Deque
variable {α : Type u}

def start (deque : Deque α) : Nat := deque.first

/-- What an iterator points to, unless it is outside the queue. -/
def get? (deque : Deque α) (it : Nat) : Option α :=
  if deque.first ≤ it then deque.items[it - deque.first]? else none

def popFront (deque : Deque α) : Deque α := ⟨deque.first + 1, deque.items.tail⟩

/-- Walk `it` to `stop` and pop the front after each element. The walk does not
end if `it` misses `stop`, and fails where it leaves the queue. -/
def consume (stop : Nat) : Nat → Deque α → Nat → Option (List α × Deque α)
  | 0, _, _ => none
  | fuel + 1, deque, it =>
    if it = stop then some ([], deque)
    else do
      let x ← deque.get? it
      let (xs, rest) ← consume stop fuel deque.popFront (it + 1)
      some (x :: xs, rest)

/-- A walk from the front visits every element once, up to its end. -/
theorem consume_take {deque : Deque α} {count fuel : Nat} (inside : count ≤ deque.items.length) (enough : count < fuel) :
    consume (deque.start + count) fuel deque deque.start =
      some (deque.items.take count, ⟨deque.start + count, deque.items.drop count⟩) := by
  induction fuel generalizing deque count with
  | zero => omega
  | succ fuel ih =>
    rw [consume]
    cases count with
    | zero => simp [start]
    | succ count =>
      obtain ⟨first, items⟩ := deque
      cases items with
      | nil => simp at inside
      | cons x xs =>
        have later := @ih ⟨first + 1, xs⟩ count (Nat.le_of_succ_le_succ inside) (by omega)
        have same : first + 1 + count = first + (count + 1) := by omega
        simp only [start, same] at later
        simp [start, get?, popFront, later]

end Deque
