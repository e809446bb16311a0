import NetworkSimulator.Bracha.Wire
import NetworkSimulator.Library.Framing
import NetworkSimulator.Proofs.ValueLedger

/-! The serialisation can be read back without separators: a number is
recovered from its digits, and the first closing brace ends it. -/

namespace NetworkSimulator.Bracha

def readDecimal (digits : List UInt8) : Nat := Nat.ofDigits 10 (digits.reverse.map fun digit => digit.toNat - 48)

def readNumber : List UInt8 → Int
  | [] => 0
  | first :: digits => if first = 45 then -(readDecimal digits : Int) else readDecimal (first :: digits)

theorem ascii_zero : ascii "0" = [48] := by decide

theorem ascii_minus : ascii "-" = [45] := by decide

theorem ascii_close : ascii "\x7d\x7d" = [125, 125] := by decide

theorem decimal_digit {n : Nat} {digit : UInt8} (member : digit ∈ decimal n) : 48 ≤ digit.toNat ∧ digit.toNat < 58 := by
  unfold decimal at member
  split at member
  · rw [ascii_zero, List.mem_singleton] at member
    subst member
    decide
  · obtain ⟨value, inside, rfl⟩ := List.mem_map.mp member
    have small := Nat.digits_lt_base (by omega) (List.mem_reverse.mp inside)
    simp only [UInt8.toNat_ofNat']
    omega

theorem decimal_ne_nil (n : Nat) : decimal n ≠ [] := by
  unfold decimal
  split
  next => decide
  next nonzero => simpa [Nat.digits_ne_nil_iff_ne_zero] using nonzero

theorem readDecimal_decimal (n : Nat) : readDecimal (decimal n) = n := by
  unfold decimal
  split
  next zero =>
    subst zero
    decide
  next nonzero =>
    have digits : ((Nat.digits 10 n).reverse.map fun digit => UInt8.ofNat (digit + 48)).reverse.map
        (fun digit => digit.toNat - 48) = (Nat.digits 10 n).map id := by
      rw [← List.map_reverse, List.reverse_reverse, List.map_map]
      apply List.map_congr_left
      intro digit member
      have small := Nat.digits_lt_base (by omega) member
      simp only [Function.comp_apply, UInt8.toNat_ofNat', id_eq]
      omega
    rw [readDecimal, digits, List.map_id, Nat.ofDigits_digits]

theorem readNumber_number (v : MsgValueType) : readNumber (number v) = v.toInt := by
  unfold number
  split
  next negative =>
    rw [ascii_minus]
    simp only [List.cons_append, List.nil_append, readNumber, if_true, readDecimal_decimal]
    omega
  next positive =>
    cases digits : decimal v.toInt.natAbs with
    | nil => exact absurd digits (decimal_ne_nil _)
    | cons first rest =>
      have range := decimal_digit (digits ▸ List.mem_cons_self : first ∈ decimal v.toInt.natAbs)
      have unsigned : first ≠ 45 := by
        intro minus
        subst minus
        have low : 48 ≤ (45 : UInt8).toNat := range.1
        revert low
        decide
      simp only [readNumber, unsigned, if_false, ← digits, readDecimal_decimal]
      omega

theorem brace_not_mem_number (v : MsgValueType) : 125 ∉ number v := by
  have digits (n : Nat) : 125 ∉ decimal n := by
    intro member
    have high : (125 : UInt8).toNat < 58 := (decimal_digit member).2
    revert high
    decide
  unfold number
  split
  · rw [ascii_minus, List.mem_append, List.mem_singleton]
    intro found
    rcases found with sign | digit
    · revert sign
      decide
    · exact digits _ digit
  · exact digits _

def Msg.head : Msg → List UInt8
  | .Initial _ => ascii "\x7b\"Initial\":\x7b\"v\":"
  | .Echo _ => ascii "\x7b\"Echo\":\x7b\"v\":"
  | .Ready _ => ascii "\x7b\"Ready\":\x7b\"v\":"

theorem Msg.serialized_eq (msg : Msg) : msg.serialized = msg.head ++ (number msg.value ++ 125 :: [125]) := by
  cases msg with
  | Initial v | Echo v | Ready v => rw [serialized, ascii_close, List.append_assoc]; rfl

theorem Msg.serialized_ne_nil (msg : Msg) : msg.serialized ≠ [] := by simp [serialized_eq]

/-- The third byte tells the three kinds apart. -/
theorem Msg.head_of_prefix {first second : Msg} {front back : List UInt8}
    (begins : first.head ++ front <+: second.head ++ back) : first.head = second.head := by
  cases first with
  | Initial v | Echo v | Ready v =>
    cases second with
    | Initial w | Echo w | Ready w =>
      first
      | rfl
      | simp [head, ascii, List.cons_prefix_cons] at begins

theorem Msg.eq_of_head {first second : Msg} (heads : first.head = second.head) (values : first.value = second.value) :
    first = second := by
  cases first with
  | Initial v | Echo v | Ready v =>
    cases second with
    | Initial w | Echo w | Ready w =>
      first
      | exact congrArg _ values
      | simp [head, ascii] at heads

/-- No message is a proper beginning of another one. -/
theorem serialized_prefixFree : Framing.PrefixFree Msg.serialized := by
  intro first second begins
  rw [first.serialized_eq, second.serialized_eq] at begins
  have heads := Msg.head_of_prefix begins
  rw [heads] at begins
  have numbers := Framing.delimited (brace_not_mem_number _) (brace_not_mem_number _)
    ((List.prefix_append_right_inj _).mp begins)
  have values : first.value = second.value := by
    apply Int32.toInt_inj.mp
    rw [← readNumber_number, numbers, readNumber_number]
  exact Msg.eq_of_head heads values

end NetworkSimulator.Bracha
