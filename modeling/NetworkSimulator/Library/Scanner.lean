import NetworkSimulator.Library.Text
import Mathlib.Data.Vector.Basic

/-! Readers that take a value from the front of a text, and the texts they accept.
A number goes on as long as there are digits, so what a reader accepts depends on
what may follow. -/

namespace Scanner
universe u
variable {α β : Type u}

abbrev Reader (α β : Type u) := List α → Option (β × List α)

/-- A reader accepts the texts that spell a value, in front of a rest it stops at. -/
def Accepts (reader : Reader α β) (spells : β → List α → Prop) (stops : List α → Prop) : Prop :=
  ∀ text value rest, reader text = some (value, rest) ↔ ∃ token, text = token ++ rest ∧ spells value token ∧ stops rest

/-- The texts of the values, joined by the separator. -/
def Separated (separator : α) (spells : β → List α → Prop) {n : Nat} (values : List.Vector β n) (token : List α) : Prop :=
  ∃ tokens, List.Forall₂ spells values.toList tokens ∧ token = [separator].intercalate tokens

theorem separated_one {separator : α} {spells : β → List α → Prop} {values : List.Vector β 1} {token : List α} :
    Separated separator spells values token ↔ spells values.head token := by
  rw [← List.Vector.cons_head_tail values, List.Vector.head_cons, Separated, List.Vector.toList_cons, List.Vector.eq_nil values.tail]
  constructor
  · rintro ⟨tokens, spelled, rfl⟩
    cases spelled with
    | cons first rest =>
      cases rest
      simpa using first
  · intro first
    exact ⟨[token], .cons first .nil, by simp⟩

theorem separated_succ {separator : α} {spells : β → List α → Prop} {n : Nat} {values : List.Vector β (n + 2)} {token : List α} :
    Separated separator spells values token ↔ ∃ first joined, token = first ++ separator :: joined ∧ spells values.head first ∧
      Separated separator spells values.tail joined := by
  rw [← List.Vector.cons_head_tail values, List.Vector.head_cons, List.Vector.tail_cons, Separated, List.Vector.toList_cons]
  constructor
  · rintro ⟨tokens, spelled, rfl⟩
    cases spelled with
    | @cons _ first _ tokens spell rest =>
      refine ⟨first, [separator].intercalate tokens, ?_, spell, tokens, rest, rfl⟩
      cases tokens with
      | nil => simpa using rest.length_eq
      | cons second tokens => simp
  · rintro ⟨first, joined, rfl, spell, tokens, rest, rfl⟩
    refine ⟨first :: tokens, .cons spell rest, ?_⟩
    cases tokens with
    | nil => simpa using rest.length_eq
    | cons second tokens => simp

theorem mem_intercalate {separator : List α} {tokens : List (List α)} {c : α} (member : c ∈ separator.intercalate tokens) :
    c ∈ separator ∨ ∃ token ∈ tokens, c ∈ token := by
  induction tokens with
  | nil => cases member
  | cons token tokens ih =>
    cases tokens with
    | nil =>
      rw [List.intercalate_singleton] at member
      exact Or.inr ⟨token, List.mem_singleton_self token, member⟩
    | cons next tokens =>
      rw [List.intercalate_cons_cons, List.append_assoc] at member
      rcases List.mem_append.mp member with first | later
      · exact Or.inr ⟨token, List.mem_cons_self, first⟩
      · rcases List.mem_append.mp later with between | later
        · exact Or.inl between
        · obtain own | ⟨other, listed, inside⟩ := ih later
          · exact Or.inl own
          · exact Or.inr ⟨other, List.mem_cons_of_mem _ listed, inside⟩

section
variable [DecidableEq α]

/-- Take one separator. -/
def given (separator : α) : List α → Option (List α)
  | [] => none
  | first :: rest => if first = separator then some rest else none

theorem given_iff {separator : α} {text rest : List α} : given separator text = some rest ↔ text = separator :: rest := by
  cases text with
  | nil => simp [given]
  | cons first text => simp [given]

/-- The separator in front of each value but the first. -/
def between (separator : α) (index : Nat) (text : List α) : Option (List α) :=
  if 0 < index then given separator text else some text

theorem between_iff {separator : α} {index : Nat} {text rest : List α} :
    between separator index text = some rest ↔ text = (if 0 < index then [separator] else []) ++ rest := by
  unfold between
  split
  · exact given_iff
  · rw [Option.some.injEq, List.nil_append]

/-- As many values as asked for. -/
def groups (separator : α) (reader : Reader α β) : (n : Nat) → Nat → List α → Option (List.Vector β n × List α)
  | 0, _, text => some (.nil, text)
  | n + 1, index, text => do
    let text ← between separator index text
    let (value, text) ← reader text
    let (values, text) ← groups separator reader n (index + 1) text
    some (values.cons value, text)

theorem groups_succ_iff {separator : α} {reader : Reader α β} {n index : Nat} {text rest : List α} {values : List.Vector β (n + 1)} :
    groups separator reader (n + 1) index text = some (values, rest) ↔
      ∃ front middle, text = (if 0 < index then [separator] else []) ++ front ∧ reader front = some (values.head, middle) ∧
        groups separator reader n (index + 1) middle = some (values.tail, rest) := by
  simp only [groups, Option.bind_eq_bind, Option.bind_eq_some_iff, between_iff, Option.some.injEq, Prod.mk.injEq, Prod.exists]
  constructor
  · rintro ⟨front, split, value, middle, read, tail, _, others, rfl, rfl⟩
    exact ⟨front, middle, split, read, others⟩
  · rintro ⟨front, middle, split, read, others⟩
    exact ⟨front, split, values.head, middle, read, values.tail, rest, others, List.Vector.cons_head_tail values, rfl⟩

theorem Accepts.groups {reader : Reader α β} {spells : β → List α → Prop} {stops : List α → Prop} (accepts : Accepts reader spells stops)
    {separator : α} (ends : ∀ rest, stops (separator :: rest)) (n index : Nat) :
    Accepts (groups separator reader (n + 1) index)
      (fun values token => ∃ joined, token = (if 0 < index then [separator] else []) ++ joined ∧ Separated separator spells values joined)
      stops := by
  induction n generalizing index with
  | zero =>
    intro text values rest
    have done (middle : List α) : Scanner.groups separator reader 0 (index + 1) middle = some (values.tail, rest) ↔ middle = rest := by
      rw [Scanner.groups, List.Vector.eq_nil values.tail]
      simp
    simp only [groups_succ_iff, done, separated_one, accepts _ _ _]
    constructor
    · rintro ⟨front, middle, rfl, ⟨token, rfl, spelled, stop⟩, rfl⟩
      exact ⟨_, (List.append_assoc ..).symm, ⟨token, rfl, spelled⟩, stop⟩
    · rintro ⟨_, rfl, ⟨token, rfl, spelled⟩, stop⟩
      exact ⟨_, rest, List.append_assoc .., ⟨token, rfl, spelled, stop⟩, rfl⟩
  | succ n ih =>
    intro text values rest
    simp only [groups_succ_iff (n := n + 1), ih (index + 1) _ _ _, separated_succ, accepts _ _ _, Nat.succ_pos, if_true]
    constructor
    · rintro ⟨front, middle, rfl, ⟨token, rfl, spelled, _⟩, others, rfl, ⟨joined, rfl, more⟩, stop⟩
      exact ⟨_, by simp, ⟨_, rfl, token, joined, rfl, spelled, more⟩, stop⟩
    · rintro ⟨_, rfl, ⟨_, rfl, token, joined, rfl, spelled, more⟩, stop⟩
      exact ⟨_, _, by simp, ⟨token, rfl, spelled, ends _⟩, _, rfl, ⟨joined, rfl, more⟩, stop⟩

end

theorem digitChar_digit {c : Char} (digit : c.isDigit = true) : Nat.digitChar (c.toNat - '0'.toNat) = c := by
  have lower : '0'.toNat ≤ c.toNat := (Char.isDigit_iff_toNat.mp digit).1
  apply Char.toNat_inj.mp
  rw [Nat.toNat_digitChar_of_lt_ten (Text.digit_lt digit)]
  exact Nat.add_sub_of_le lower

/-- Digits are a number with zeros in front. -/
theorem digits_shape {digits : List Char} (decimal : ∀ c ∈ digits, c.isDigit = true) (some_digit : digits ≠ []) :
    ∃ zeros, digits = List.replicate zeros '0' ++ Nat.toDigits 10 (Nat.ofDigitChars 10 digits 0) := by
  induction digits using List.reverseRecOn with
  | nil => exact absurd rfl some_digit
  | append_singleton digits c ih =>
    obtain ⟨earlier, last⟩ := List.forall_mem_append.mp decimal
    have digit := last c (List.mem_singleton_self c)
    have small := Text.digit_lt digit
    have value : Nat.ofDigitChars 10 (digits ++ [c]) 0 = 10 * Nat.ofDigitChars 10 digits 0 + (c.toNat - '0'.toNat) := by
      rw [Nat.ofDigitChars_append, Nat.ofDigitChars_cons, Nat.ofDigitChars_nil]
    have shown := digitChar_digit digit
    rw [value]
    by_cases zero : Nat.ofDigitChars 10 digits 0 = 0
    · -- Only zeros so far.
      rw [zero, Nat.mul_zero, Nat.zero_add, Nat.toDigits_of_lt_base small, shown]
      by_cases none : digits = []
      · exact ⟨0, by rw [none]; rfl⟩
      · obtain ⟨zeros, shape⟩ := ih earlier none
        rw [zero, Nat.toDigits_zero] at shape
        exact ⟨zeros + 1, by rw [shape, List.replicate_succ']⟩
    · have some_earlier : digits ≠ [] := by
        rintro rfl
        exact zero Nat.ofDigitChars_nil
      obtain ⟨zeros, shape⟩ := ih earlier some_earlier
      refine ⟨zeros, ?_⟩
      rw [← Nat.toDigits_append_toDigits (by decide) (Nat.pos_of_ne_zero zero) small, Nat.toDigits_of_lt_base small, shown,
        ← List.append_assoc, ← shape]

/-- Only zero is printed with a zero in front. -/
theorem toDigits_zero_first {n : Nat} (first : (Nat.toDigits 10 n).head? = some '0') : n = 0 := by
  induction n using Nat.strongRecOn with
  | ind n ih =>
    by_cases small : n < 10
    · rw [Nat.toDigits_of_lt_base small] at first
      exact Nat.digitChar_eq_zero.mp (Option.some.inj first)
    · have front := first
      rw [Nat.toDigits_of_base_le (by decide) (Nat.le_of_not_lt small), List.head?_append_of_ne_nil _ Nat.toDigits_ne_nil] at front
      have zero := ih (n / 10) (by omega) front
      omega

/-- A number in decimal digits, as many as there are. -/
def read_number (max_digits : Option Nat) (zeros_allowed : Bool) (bound : Nat) : Reader Char (Fin bound) := fun text =>
  let digits := text.takeWhile Char.isDigit
  let result := Nat.ofDigitChars 10 digits 0
  if digits = [] ∨ (∃ most ∈ max_digits, most < digits.length) ∨
      (zeros_allowed = false ∧ digits.head? = some '0' ∧ 1 < digits.length) then none
  else if small : result < bound then some (⟨result, small⟩, text.dropWhile Char.isDigit)
  else none

/-- The longest front of a text that meets a condition. -/
theorem front_iff {meets : α → Bool} {text front rest : List α} : text.takeWhile meets = front ∧ text.dropWhile meets = rest ↔
    text = front ++ rest ∧ (∀ c ∈ front, meets c = true) ∧ ∀ c ∈ rest.head?, meets c = false := by
  constructor
  · rintro ⟨rfl, rfl⟩
    refine ⟨List.takeWhile_append_dropWhile.symm, fun c member => List.mem_takeWhile_imp member, fun c first => ?_⟩
    have stop := List.head?_dropWhile_not meets text
    rw [Option.mem_def.mp first] at stop
    simpa using stop
  · rintro ⟨rfl, front_meets, stop⟩
    have ends : rest.takeWhile meets = [] ∧ rest.dropWhile meets = rest := by
      cases rest with
      | nil => exact ⟨rfl, rfl⟩
      | cons first rest => simp [stop first rfl]
    rw [List.takeWhile_append_of_pos front_meets, List.dropWhile_append_of_pos front_meets, ends.1, ends.2, List.append_nil]
    exact ⟨rfl, rfl⟩

variable {bound : Nat}

theorem read_number_iff {max_digits : Option Nat} {zeros_allowed : Bool} {text rest : List Char} {value : Fin bound} :
    read_number max_digits zeros_allowed bound text = some (value, rest) ↔
      ∃ digits, text = digits ++ rest ∧ (digits ≠ [] ∧ (∀ c ∈ digits, c.isDigit = true) ∧
        (∀ most ∈ max_digits, digits.length ≤ most) ∧
        (zeros_allowed = false → digits.head? = some '0' → digits.length ≤ 1) ∧ Nat.ofDigitChars 10 digits 0 = value) ∧
        ∀ c ∈ rest.head?, c.isDigit = false := by
  unfold read_number
  constructor
  · intro read
    dsimp only at read
    split at read
    next => cases read
    next allowed =>
      split at read
      next small =>
        cases read
        obtain ⟨split, decimal, stop⟩ := front_iff.mp ⟨rfl, rfl⟩
        simp only [not_or, not_exists, not_and, Nat.not_lt] at allowed
        exact ⟨_, split, ⟨allowed.1, decimal, allowed.2.1, allowed.2.2, rfl⟩, stop⟩
      next => cases read
  · rintro ⟨digits, split, ⟨some_digit, decimal, few, plain, result⟩, stop⟩
    obtain ⟨taken, dropped⟩ := front_iff.mpr ⟨split, decimal, stop⟩
    simp only [taken, dropped]
    rw [if_neg, dif_pos (result ▸ value.isLt)]
    · simp only [result]
    · simp only [not_or, not_exists, not_and, Nat.not_lt]
      exact ⟨some_digit, few, plain⟩

theorem zeros_value (zeros n : Nat) : Nat.ofDigitChars 10 (List.replicate zeros '0' ++ Nat.toDigits 10 n) 0 = n := by
  rw [Nat.ofDigitChars_append, Nat.ofDigitChars_replicate_zero, Nat.mul_zero, Nat.ofDigitChars_ten_toDigits]

theorem zeros_isDigit (zeros n : Nat) : ∀ c ∈ List.replicate zeros '0' ++ Nat.toDigits 10 n, c.isDigit = true := by
  refine List.forall_mem_append.mpr ⟨fun c member => ?_, Text.toDigits_isDigit n⟩
  rw [List.eq_of_mem_replicate member]
  rfl

theorem zeros_ne_nil (zeros n : Nat) : List.replicate zeros '0' ++ Nat.toDigits 10 n ≠ [] :=
  List.append_ne_nil_of_right_ne_nil _ Nat.toDigits_ne_nil

/-- A number in which zeros may come first. -/
theorem accepts_leading_zeros (bound : Nat) : Accepts (read_number none true bound)
    (fun value token => ∃ zeros, token = List.replicate zeros '0' ++ Nat.toDigits 10 value)
    (fun rest => ∀ c ∈ rest.head?, c.isDigit = false) := by
  intro text value rest
  rw [read_number_iff]
  refine exists_congr fun digits => and_congr_right fun _ => and_congr_left fun _ => ?_
  constructor
  · rintro ⟨some_digit, decimal, _, _, result⟩
    rw [← result]
    exact digits_shape decimal some_digit
  · rintro ⟨zeros, rfl⟩
    exact ⟨zeros_ne_nil zeros value, zeros_isDigit zeros value, by simp, by simp, zeros_value zeros value⟩

/-- A number as it is printed. -/
theorem accepts_number {most : Nat} (short : bound ≤ 10 ^ most) (some_digit : 0 < most) : Accepts (read_number (some most) false bound)
    (fun value token => token = Nat.toDigits 10 value) (fun rest => ∀ c ∈ rest.head?, c.isDigit = false) := by
  intro text value rest
  rw [read_number_iff]
  refine exists_congr fun digits => and_congr_right fun _ => and_congr_left fun _ => ?_
  constructor
  · rintro ⟨some_digit, decimal, _, plain, result⟩
    obtain ⟨zeros, shape⟩ := digits_shape decimal some_digit
    rw [result] at shape
    cases zeros with
    | zero => simpa using shape
    | succ zeros =>
      -- A number of one digit has nothing behind a zero.
      have single := plain rfl (by rw [shape, List.replicate_succ]; rfl)
      have some_more := @Nat.length_toDigits_pos 10 value
      rw [shape] at single
      simp at single
      omega
  · rintro rfl
    refine ⟨Nat.toDigits_ne_nil, Text.toDigits_isDigit value, fun limit same => ?_, fun _ zero => ?_, Nat.ofDigitChars_ten_toDigits⟩
    · cases same
      exact (Nat.length_toDigits_le_iff (by decide) some_digit).mpr (value.isLt.trans_le short)
    · rw [toDigits_zero_first zero]
      exact le_rfl

def parse_digits (bound : Nat) (digits : List Char) : Option (Fin bound) :=
  let result := Nat.ofDigitChars 10 digits 0
  if digits = [] ∨ ¬ digits.all Char.isDigit then none
  else if small : result < bound then some ⟨result, small⟩
  else none

/-- A whole text as an unsigned number, with a plus in front or without. -/
def parse (bound : Nat) (text : List Char) : Option (Fin bound) :=
  parse_digits bound (if text.head? = some '+' then text.tail else text)

theorem parse_digits_iff {digits : List Char} {value : Fin bound} : parse_digits bound digits = some value ↔
    ∃ zeros, digits = List.replicate zeros '0' ++ Nat.toDigits 10 value := by
  unfold parse_digits
  constructor
  · intro read
    dsimp only at read
    split at read
    next => cases read
    next allowed =>
      split at read
      next small =>
        cases read
        rw [not_or, not_not, List.all_eq_true] at allowed
        exact digits_shape allowed.2 allowed.1
      next => cases read
  · rintro ⟨zeros, rfl⟩
    simp only [zeros_value]
    rw [if_neg, dif_pos value.isLt]
    rw [not_or, not_not, List.all_eq_true]
    exact ⟨zeros_ne_nil zeros value, zeros_isDigit zeros value⟩

theorem parse_iff {text : List Char} {value : Fin bound} : parse bound text = some value ↔
    ∃ plus zeros, (plus = [] ∨ plus = ['+']) ∧ text = plus ++ (List.replicate zeros '0' ++ Nat.toDigits 10 value) := by
  rw [parse, parse_digits_iff]
  constructor
  · rintro ⟨zeros, shape⟩
    split at shape
    next plus =>
      obtain ⟨rest, rfl⟩ := List.head?_eq_some_iff.mp plus
      exact ⟨['+'], zeros, Or.inr rfl, congrArg _ shape⟩
    next => exact ⟨[], zeros, Or.inl rfl, shape⟩
  · rintro ⟨plus, zeros, rfl | rfl, rfl⟩
    · refine ⟨zeros, if_neg fun first => ?_⟩
      have digit := zeros_isDigit zeros value '+' (List.mem_of_mem_head? first)
      cases digit
    · exact ⟨zeros, if_pos rfl⟩

theorem parse_toDigits {n : Nat} {value : Fin bound} : parse bound (Nat.toDigits 10 n) = some value ↔ value.val = n := by
  rw [parse_iff]
  constructor
  · rintro ⟨plus, zeros, rfl | rfl, same⟩
    · have number := congrArg (Nat.ofDigitChars 10 · 0) same
      simp only [List.nil_append, zeros_value, Nat.ofDigitChars_ten_toDigits] at number
      exact number.symm
    · have digit := Text.toDigits_isDigit n '+' (by rw [same]; exact List.mem_cons_self)
      cases digit
  · rintro rfl
    exact ⟨[], 0, Or.inl rfl, rfl⟩

/-- Lines end in a newline, which a carriage return may precede. The end of the last one may be missing. -/
def lines : List Char → List (List Char)
  | [] => []
  | '\n' :: text => [] :: lines text
  | '\r' :: '\n' :: text => [] :: lines text
  | c :: text =>
    match lines text with
    | [] => [[c]]
    | line :: others => (c :: line) :: others

/-- The texts that have these lines. -/
inductive Terminated : List (List Char) → List Char → Prop
  | nil : Terminated [] []
  | last {line : List Char} (some_char : line ≠ []) : Terminated [line] line
  | newline {lines : List (List Char)} {text : List Char} (line : List Char) (rest : Terminated lines text) :
      Terminated (line :: lines) (line ++ '\n' :: text)
  | return_newline {lines : List (List Char)} {text : List Char} (line : List Char) (rest : Terminated lines text) :
      Terminated (line :: lines) (line ++ '\r' :: '\n' :: text)

theorem Terminated.grow {line : List Char} {others : List (List Char)} {text : List Char} (terminated : Terminated (line :: others) text)
    (c : Char) : Terminated ((c :: line) :: others) (c :: text) := by
  cases terminated with
  | last some_char => exact .last (List.cons_ne_nil c _)
  | newline _ rest => exact .newline (c :: line) rest
  | return_newline _ rest => exact .return_newline (c :: line) rest

theorem terminated_lines (text : List Char) : Terminated (lines text) text := by
  induction text using lines.induct with
  | case1 => exact .nil
  | case2 text ih => exact .newline [] ih
  | case3 text ih => exact .return_newline [] ih
  | case4 c text other returns none ih =>
    rw [lines.eq_4 c text other returns, none]
    rw [none] at ih
    cases ih
    exact .last (List.cons_ne_nil c _)
  | case5 c text other returns line others more ih =>
    rw [lines.eq_4 c text other returns, more]
    rw [more] at ih
    exact ih.grow c

section
variable {line : List Char} (plain : ∀ c ∈ line, c ≠ '\n' ∧ c ≠ '\r')
include plain

theorem lines_append {text : List Char} {others : List (List Char)} (rest : lines text = [] :: others) :
    lines (line ++ text) = line :: others := by
  induction line with
  | nil => exact rest
  | cons c line ih =>
    obtain ⟨⟨other, solid⟩, later⟩ := List.forall_mem_cons.mp plain
    rw [List.cons_append, lines.eq_4 c _ other fun _ same _ => solid same, ih later]

theorem lines_last (some_char : line ≠ []) : lines line = [line] := by
  induction line with
  | nil => exact absurd rfl some_char
  | cons c line ih =>
    obtain ⟨⟨other, solid⟩, later⟩ := List.forall_mem_cons.mp plain
    rw [lines.eq_4 c _ other fun _ same _ => solid same]
    cases line with
    | nil => rfl
    | cons next line => rw [ih later (List.cons_ne_nil next line)]

end

theorem lines_iff {whole : List (List Char)} (plain : ∀ line ∈ whole, ∀ c ∈ line, c ≠ '\n' ∧ c ≠ '\r') {text : List Char} :
    lines text = whole ↔ Terminated whole text := by
  constructor
  · rintro rfl
    exact terminated_lines text
  · intro terminated
    induction terminated with
    | nil => rfl
    | @last line some_char => exact lines_last (plain line (List.mem_singleton_self line)) some_char
    | @newline others text line rest ih =>
      obtain ⟨solid, later⟩ := List.forall_mem_cons.mp plain
      exact lines_append solid (congrArg (List.cons []) (ih later))
    | @return_newline others text line rest ih =>
      obtain ⟨solid, later⟩ := List.forall_mem_cons.mp plain
      exact lines_append solid (congrArg (List.cons []) (ih later))

end Scanner
