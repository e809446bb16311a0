import Mathlib.Algebra.Order.Field.Rat
import Mathlib.Data.List.DropRight
import Mathlib.Data.Set.List
import Mathlib.Tactic.Linarith
import Mathlib.Tactic.Positivity
import NetworkSimulator.Library.Lines

/-! Reading text the way the C++ library does: lines and fields by `getline`, words
by `>>`, and numbers by `stoi`, which stops at the first character it cannot use. -/

namespace Text

/-- White space of the C locale. -/
def isspace (c : Char) : Bool := c ∈ [' ', '\t', '\n', '\x0b', '\x0c', '\r']

/-- `getline` as long as it extracts something, so that a delimiter at the end of
the text does not begin another piece. -/
def getlines (delim : Char) (text : List Char) : List (List Char) :=
  let pieces := text.splitOn delim
  if pieces.getLast? = some [] then pieces.dropLast else pieces

/-- `>>` into a string, and what it leaves. -/
def extract (text : List Char) : List Char × List Char :=
  let word := text.dropWhile isspace
  (word.takeWhile (!isspace ·), word.dropWhile (!isspace ·))

/-- An optional sign: whether it is a minus, and what follows. -/
def sign : List Char → Bool × List Char
  | '-' :: rest => (true, rest)
  | '+' :: rest => (false, rest)
  | rest => (false, rest)

/-- `std::stoi`, an integer of 32 bits. `none` is one of its two exceptions. -/
def stoi (token : List Char) : Option Int :=
  let (negative, number) := sign (token.dropWhile isspace)
  let digits := number.takeWhile Char.isDigit
  if digits = [] then none
  else
    let magnitude : Int := Nat.ofDigitChars 10 digits 0
    let value := if negative then -magnitude else magnitude
    if -2 ^ 31 ≤ value ∧ value < 2 ^ 31 then some value else none

/-- The number a whole text writes in decimal notation, with blanks around it. -/
def numeral (token : List Char) : Option ℚ :=
  let (negative, number) := sign (token.dropWhile isspace)
  let digits := number.takeWhile Char.isDigit
  let magnitude : Option ℚ :=
    match (number.dropWhile Char.isDigit).rdropWhile isspace with
    | [] => some (Nat.ofDigitChars 10 digits 0)
    | point :: fraction =>
      if point = '.' ∧ fraction.all Char.isDigit then
        some (Nat.ofDigitChars 10 (digits ++ fraction) 0 / 10 ^ fraction.length)
      else none
  if digits = [] then none else magnitude.map fun value => if negative then -value else value

section
universe u v
variable {α : Type u} {β : Type v} {read : α → Option β}

/-- Reading every piece gives some values when it gives one for each piece. -/
theorem mapM_eq_some_iff {pieces : List α} {values : List β} :
    pieces.mapM read = some values ↔ pieces.map read = values.map some := by
  induction pieces generalizing values with
  | nil =>
    constructor
    · intro found
      cases found
      rfl
    · intro same
      rw [List.map_eq_nil_iff.mp same.symm]
      rfl
  | cons piece pieces ih =>
    simp only [List.mapM_cons, Option.bind_eq_bind, Option.bind_eq_some_iff, Option.pure_def, Option.some.injEq, List.map_cons]
    constructor
    · intro found
      obtain ⟨first, done, others, rest, rfl⟩ := found
      rw [List.map_cons, done, ih.mp rest]
    · intro found
      obtain ⟨first, others, rfl, done, rest⟩ := List.map_eq_cons_iff.mp found.symm
      exact ⟨first, done.symm, others, ih.mpr rest.symm, rfl⟩

/-- It fails at the first piece that cannot be read. -/
theorem mapM_exists_iff {pieces : List α} : (∃ values, pieces.mapM read = some values) ↔ ∀ piece ∈ pieces, read piece ≠ none := by
  have range : pieces.map read ∈ Set.range (List.map some) ↔ ∀ entry ∈ pieces.map read, entry ∈ Set.range some := by
    rw [Set.range_list_map]
    exact Iff.rfl
  simp only [mapM_eq_some_iff, Option.ne_none_iff_exists]
  rw [List.forall_mem_map] at range
  exact (exists_congr fun _ => eq_comm).trans range

/-- What is read from a piece stands where the piece does. -/
theorem mapM_getElem? {pieces : List α} {values : List β} (done : pieces.mapM read = some values) (i : Nat) :
    values[i]? = pieces[i]?.bind read := by
  have stands := congrArg (·[i]?) (mapM_eq_some_iff.mp done)
  simp only [List.getElem?_map] at stands
  cases piece : pieces[i]? with
  | none =>
    rw [piece] at stands
    exact Option.map_eq_none_iff.mp stands.symm
  | some text =>
    rw [piece] at stands
    obtain ⟨value, found, same⟩ := Option.map_eq_some_iff.mp stands.symm
    exact found.trans same

theorem mapM_length {pieces : List α} {values : List β} (done : pieces.mapM read = some values) :
    values.length = pieces.length := by
  have lengths := congrArg List.length (mapM_eq_some_iff.mp done)
  rw [List.length_map, List.length_map] at lengths
  exact lengths.symm

end

theorem getlines_written {delim : Char} {lines : List (List Char)} (whole : ∀ line ∈ lines, delim ∉ line) :
    getlines delim (Lines.written delim lines) = lines := by
  have pieces := Lines.splitOn_written whole []
  rw [List.append_nil, List.splitOn_nil] at pieces
  rw [getlines, pieces]
  simp

/-- Where a piece is found it is the piece of that number. -/
theorem getlines_getElem? {delim : Char} {text piece : List Char} {i : Nat} (found : (getlines delim text)[i]? = some piece) :
    (text.splitOn delim)[i]? = some piece := by
  simp only [getlines] at found
  split at found
  · rw [List.getElem?_dropLast] at found
    split at found
    · exact found
    · cases found
  · exact found

/-- A word in front of white space, or at the end. -/
theorem extract_word {word rest : List Char} (nonempty : word ≠ []) (solid : ∀ c ∈ word, isspace c = false)
    (ends : ∀ c ∈ rest.head?, isspace c = true) : extract (word ++ rest) = (word, rest) := by
  have begins : (word ++ rest).dropWhile isspace = word ++ rest := by
    cases word with
    | nil => exact absurd rfl nonempty
    | cons first word => simp [solid first List.mem_cons_self]
  have letters : ∀ c ∈ word, (!isspace c) = true := fun c member => by simp [solid c member]
  have stop : rest.takeWhile (!isspace ·) = [] ∧ rest.dropWhile (!isspace ·) = rest := by
    cases rest with
    | nil => exact ⟨rfl, rfl⟩
    | cons blank rest => simp [ends blank rfl]
  rw [extract, begins, List.takeWhile_append_of_pos letters, List.dropWhile_append_of_pos letters, stop.1, stop.2,
    List.append_nil]

/-- White space in front of a word is skipped. -/
theorem extract_blank {blank : Char} (space : isspace blank = true) (rest : List Char) :
    extract (blank :: rest) = extract rest := by
  simp [extract, space]

theorem stoi_range {token : List Char} {value : Int} (read : stoi token = some value) : -2 ^ 31 ≤ value ∧ value < 2 ^ 31 := by
  simp only [stoi] at read
  split at read
  · cases read
  · rw [Option.ite_none_right_eq_some, Option.some.injEq] at read
    obtain ⟨inside, rfl⟩ := read
    exact inside

theorem isspace_digit {c : Char} (digit : c.isDigit = true) : isspace c = false := by
  cases space : isspace c with
  | false => rfl
  | true =>
    simp only [isspace, decide_eq_true_eq, List.mem_cons, List.not_mem_nil, or_false] at space
    rcases space with rfl | rfl | rfl | rfl | rfl | rfl <;> cases digit

/-- A digit is neither white space nor a sign. -/
theorem digits_bare {digits : List Char} (decimal : ∀ c ∈ digits, c.isDigit = true) :
    digits.dropWhile isspace = digits ∧ sign digits = (false, digits) := by
  cases digits with
  | nil => exact ⟨rfl, rfl⟩
  | cons first digits =>
    have digit := decimal first List.mem_cons_self
    constructor
    · apply List.dropWhile_cons_of_neg
      simp [isspace_digit digit]
    · unfold sign
      split
      next same =>
        cases same
        cases digit
      next same =>
        cases same
        cases digit
      next => rfl

theorem toDigits_isDigit (n : Nat) : ∀ c ∈ Nat.toDigits 10 n, c.isDigit = true :=
  fun _ member => Nat.isDigit_of_mem_toDigits (by decide) (by decide) member

/-- A number written without sign or blanks is read back. -/
theorem stoi_toDigits {n : Nat} (small : n < 2 ^ 31) : stoi (Nat.toDigits 10 n) = some (n : Int) := by
  have decimal := toDigits_isDigit n
  obtain ⟨solid, unsigned⟩ := digits_bare decimal
  simp only [stoi, solid, unsigned, List.takeWhile_eq_self_iff.mpr decimal]
  rw [if_neg Nat.toDigits_ne_nil, Nat.ofDigitChars_ten_toDigits]
  simp only [Bool.false_eq_true, if_false]
  rw [if_pos (by omega)]

theorem digit_lt {c : Char} (digit : c.isDigit = true) : c.toNat - '0'.toNat < 10 := by
  have upper : c.toNat ≤ 57 := (Char.isDigit_iff_toNat.mp digit).2
  change c.toNat - 48 < 10
  omega

theorem ofDigitChars_lt {digits : List Char} (decimal : ∀ c ∈ digits, c.isDigit = true) :
    Nat.ofDigitChars 10 digits 0 < 10 ^ digits.length := by
  induction digits with
  | nil => exact Nat.one_pos
  | cons c digits ih =>
    obtain ⟨first, others⟩ := List.forall_mem_cons.mp decimal
    have small := digit_lt first
    have rest := ih others
    rw [Nat.ofDigitChars_cons, Nat.ofDigitChars_eq_ofDigitChars_zero, List.length_cons, Nat.pow_succ, Nat.mul_zero,
      Nat.zero_add]
    calc 10 ^ digits.length * (c.toNat - '0'.toNat) + Nat.ofDigitChars 10 digits 0
        < 10 ^ digits.length * (c.toNat - '0'.toNat) + 10 ^ digits.length := Nat.add_lt_add_left rest _
      _ = 10 ^ digits.length * (c.toNat - '0'.toNat + 1) := (Nat.mul_succ _ _).symm
      _ ≤ 10 ^ digits.length * 10 := Nat.mul_le_mul_left _ small

/-- A whole number has nothing but zeros after the point. -/
theorem whole_of_fraction {digits fraction : List Char} {n : ℕ} (decimal : ∀ c ∈ fraction, c.isDigit = true)
    (written : (Nat.ofDigitChars 10 (digits ++ fraction) 0 : ℚ) / 10 ^ fraction.length = n) :
    Nat.ofDigitChars 10 digits 0 = n := by
  have small := ofDigitChars_lt decimal
  have scaled : Nat.ofDigitChars 10 (digits ++ fraction) 0 = n * 10 ^ fraction.length := by
    have positive : (10 : ℚ) ^ fraction.length ≠ 0 := by positivity
    exact_mod_cast (div_eq_iff positive).mp written
  rw [Nat.ofDigitChars_append, Nat.ofDigitChars_eq_ofDigitChars_zero] at scaled
  have quotient := congrArg (· / 10 ^ fraction.length) scaled
  simpa [Nat.mul_add_div (Nat.pow_pos (Nat.succ_pos 9)), Nat.div_eq_of_lt small] using quotient

/-- The magnitude of a numeral is not less than the integer in front of it, and a
whole one is that integer. -/
theorem magnitude_whole {digits rest : List Char} {magnitude : ℚ}
    (written : (match rest with
      | [] => some ((Nat.ofDigitChars 10 digits 0 : ℕ) : ℚ)
      | point :: fraction =>
        if point = '.' ∧ fraction.all Char.isDigit then
          some ((Nat.ofDigitChars 10 (digits ++ fraction) 0 : ℚ) / 10 ^ fraction.length)
        else none) = some magnitude) :
    0 ≤ magnitude ∧ ∀ n : ℕ, magnitude = n → Nat.ofDigitChars 10 digits 0 = n := by
  cases rest with
  | nil =>
    cases written
    exact ⟨by positivity, fun n same => by exact_mod_cast same⟩
  | cons point fraction =>
    simp only [Option.ite_none_right_eq_some, Option.some.injEq] at written
    obtain ⟨⟨_, decimal⟩, rfl⟩ := written
    exact ⟨by positivity, fun n same => whole_of_fraction (List.all_eq_true.mp decimal) same⟩

/-- Where a text writes a natural number and is accepted, nothing has been cut off. -/
theorem stoi_numeral {token : List Char} {value : Int} {n : ℕ} (read : stoi token = some value)
    (written : numeral token = some (n : ℚ)) : value = n := by
  simp only [stoi, numeral] at read written
  split at read
  · cases read
  next some_digits =>
    rw [if_neg some_digits, Option.map_eq_some_iff] at written
    obtain ⟨magnitude, shape, signed⟩ := written
    obtain ⟨positive, whole⟩ := magnitude_whole shape
    rw [Option.ite_none_right_eq_some, Option.some.injEq] at read
    obtain ⟨_, rfl⟩ := read
    cases minus : (sign (token.dropWhile isspace)).1 with
    | false =>
      simp only [minus, Bool.false_eq_true, if_false] at signed ⊢
      rw [whole n signed]
    | true =>
      -- A natural number with a minus is zero.
      simp only [minus, if_true] at signed ⊢
      have below : (0 : ℚ) ≤ n := by positivity
      have zero : magnitude = (0 : ℕ) := by
        rw [Nat.cast_zero]
        linarith
      have none : n = 0 := by
        rw [zero, Nat.cast_zero, neg_zero] at signed
        exact_mod_cast signed.symm
      rw [whole 0 zero, none]
      rfl

end Text
