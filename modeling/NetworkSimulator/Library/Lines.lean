import Mathlib.Data.List.TakeWhile
import NetworkSimulator.Library.Framing

/-! Lines cut from a stream that arrives in pieces. What has arrived and what is
still to come always make up the lines that nobody has taken yet. -/

namespace Lines
universe u
variable {α : Type u} (newline : α)

/-- The stream of some lines, each with its end. -/
def written (lines : List (List α)) : List α := lines.flatMap (· ++ [newline])

theorem written_concat (lines : List (List α)) (line : List α) :
    written newline (lines ++ [line]) = written newline lines ++ (line ++ [newline]) := by
  rw [written, List.flatMap_append, List.flatMap_singleton]
  rfl

/-- A read that takes no character out loses none, and leaves the stream as it is. -/
theorem arrived {buffer coming : List α} (count : Nat) : buffer ++ coming.take count ++ coming.drop count = buffer ++ coming := by
  rw [List.append_assoc, List.take_append_drop]

/-- A newline is not in a front that has none. -/
theorem newline_beyond {newline : α} {front back whole later : List α} (unfinished : newline ∉ front)
    (same : whole ++ newline :: later = front ++ back) :
    ∃ pending, whole = front ++ pending ∧ back = pending ++ newline :: later := by
  rcases List.append_eq_append_iff.mp same with ⟨inside, rfl, shape⟩ | found
  · cases inside with
    | nil => exact ⟨[], by simp, by simpa using shape.symm⟩
    | cons first inside =>
      obtain ⟨rfl, _⟩ := List.cons.inj shape
      exact absurd (List.mem_append_right whole List.mem_cons_self) unfinished
  · exact found

variable [DecidableEq α]

/-- The first line of a buffer, and the buffer without it. -/
def first (buffer : List α) : Option (List α × List α) :=
  if newline ∈ buffer then some (buffer.takeWhile (· ≠ newline), (buffer.dropWhile (· ≠ newline)).tail) else none

variable {newline}

theorem first_split {buffer line rest : List α} (found : first newline buffer = some (line, rest)) :
    buffer = line ++ newline :: rest ∧ newline ∉ line := by
  unfold first at found
  split at found
  next ends =>
    obtain ⟨rfl, rfl⟩ := Prod.mk.inj (Option.some.inj found)
    constructor
    · have stops : buffer.dropWhile (· ≠ newline) ≠ [] := by
        intro none
        have outside := List.dropWhile_eq_nil_iff.mp none newline ends
        exact absurd outside (by simp)
      have head : (buffer.dropWhile (· ≠ newline)).head stops = newline := by
        simpa using List.head_dropWhile_not (· ≠ newline) stops
      have joined := List.cons_head_tail stops
      rw [head] at joined
      rw [joined, List.takeWhile_append_dropWhile]
    · intro inside
      simpa using List.mem_takeWhile_imp inside
  next => cases found

theorem first_exists {buffer : List α} (ends : newline ∈ buffer) : ∃ line rest, first newline buffer = some (line, rest) :=
  ⟨_, _, if_pos ends⟩

/-- Cutting a stream at its newlines gives back the lines written to it. -/
theorem splitOn_written {lines : List (List α)} (whole : ∀ line ∈ lines, newline ∉ line) (rest : List α) :
    (written newline lines ++ rest).splitOn newline = lines ++ rest.splitOn newline := by
  induction lines with
  | nil => rfl
  | cons line lines ih =>
    obtain ⟨outside, others⟩ := List.forall_mem_cons.mp whole
    have shape : written newline (line :: lines) ++ rest = line ++ newline :: (written newline lines ++ rest) := by
      simp [written]
    rw [shape, List.splitOn_append_cons_self_of_not_mem outside, ih others, List.cons_append]

theorem count_written {lines : List (List α)} (whole : ∀ line ∈ lines, newline ∉ line) :
    (written newline lines).count newline = lines.length := by
  induction lines with
  | nil => rfl
  | cons line lines ih =>
    obtain ⟨outside, others⟩ := List.forall_mem_cons.mp whole
    have shape : written newline (line :: lines) = line ++ newline :: written newline lines := by
      simp [written]
    rw [shape, List.count_append, List.count_eq_zero.mpr outside, List.count_cons_self, ih others, List.length_cons,
      Nat.zero_add]

/-- A line found in the buffer is the first line of the stream. -/
theorem first_written {buffer coming line rest : List α} {lines : List (List α)} (whole : ∀ line ∈ lines, newline ∉ line)
    (stream : buffer ++ coming = written newline lines) (found : first newline buffer = some (line, rest)) :
    ∃ others, lines = line :: others ∧ rest ++ coming = written newline others := by
  obtain ⟨rfl, outside⟩ := first_split found
  cases lines with
  | nil =>
    rw [List.append_assoc, List.cons_append] at stream
    exact absurd stream (List.append_ne_nil_of_right_ne_nil _ (List.cons_ne_nil _ _))
  | cons next others =>
    obtain ⟨ends, _⟩ := List.forall_mem_cons.mp whole
    have begins : line ++ newline :: (rest ++ coming) = next ++ newline :: written newline others := by
      simpa [written] using stream
    obtain rfl := Framing.delimited outside ends ⟨[], (List.append_nil _).trans begins⟩
    exact ⟨others, rfl, (List.cons.inj (List.append_cancel_left begins)).2⟩

end Lines
