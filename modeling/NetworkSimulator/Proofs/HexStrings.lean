import NetworkSimulator.Simulator.Slice
import Mathlib.Data.List.Induction

/-! `hexStr` is an exact code: three characters a byte, the two digits of the byte
and a separator, and no two strings of one length have the same text. -/

namespace NetworkSimulator.Simulator

theorem digitChar_hexmap : ∀ n < 16, hexmap.getD n ' ' = Nat.digitChar n ∧ Nat.digitChar n ∈ hexmap ∧
    hexmap.idxOf (Nat.digitChar n) = n := by
  decide

/-- What `hexStr` writes for a byte. -/
def hex_digits (byte : UInt8) : List Char :=
  [hexmap.getD ((byte &&& 0xF0) >>> 4).toNat ' ', hexmap.getD (byte &&& 0x0F).toNat ' ', ':']

theorem hex_digits_eq (byte : UInt8) :
    hex_digits byte = [Nat.digitChar (byte.toNat / 16), Nat.digitChar (byte.toNat % 16), ':'] := by
  have inside : byte.toNat < 256 := byte.toNat_lt
  have high : ((byte &&& 0xF0) >>> 4).toNat = byte.toNat / 16 := by
    rw [UInt8.toNat_shiftRight, UInt8.toNat_and]
    change (byte.toNat &&& 240) >>> 4 = byte.toNat / 16
    rw [Nat.shiftRight_and_distrib]
    change byte.toNat >>> 4 &&& 2 ^ 4 - 1 = byte.toNat / 16
    rw [Nat.and_two_pow_sub_one_eq_mod, Nat.shiftRight_eq_div_pow]
    omega
  have low : (byte &&& 0x0F).toNat = byte.toNat % 16 := by
    rw [UInt8.toNat_and]
    exact Nat.and_two_pow_sub_one_eq_mod byte.toNat 4
  rw [hex_digits, high, low, (digitChar_hexmap _ (by omega)).1, (digitChar_hexmap _ (Nat.mod_lt _ (by decide))).1]

theorem hex_digits_injective {a b : UInt8} (same : hex_digits a = hex_digits b) : a = b := by
  have first : a.toNat < 256 := a.toNat_lt
  have second : b.toNat < 256 := b.toNat_lt
  rw [hex_digits_eq, hex_digits_eq] at same
  obtain ⟨high, rest⟩ := List.cons.inj same
  obtain ⟨low, _⟩ := List.cons.inj rest
  -- A digit stands at its own place in `hexmap`.
  have highs := congrArg hexmap.idxOf high
  have lows := congrArg hexmap.idxOf low
  rw [(digitChar_hexmap _ (by omega)).2.2, (digitChar_hexmap _ (by omega)).2.2] at highs lows
  apply UInt8.toNat_inj.mp
  omega

theorem flatMap_hex_digits_injective {first second : List UInt8}
    (same : first.flatMap hex_digits = second.flatMap hex_digits) : first = second := by
  induction first generalizing second with
  | nil =>
    cases second with
    | nil => rfl
    | cons byte second => cases same
  | cons byte first ih =>
    cases second with
    | nil => cases same
    | cons other second =>
      obtain ⟨digits, rest⟩ := List.append_inj same rfl
      rw [hex_digits_injective digits, ih rest]

/-- Removing the last separator loses nothing. -/
theorem hexStr_separator {data : List UInt8} (nonempty : data ≠ []) :
    (hexStr data).toList ++ [':'] = data.flatMap hex_digits := by
  obtain ⟨front, last, rfl⟩ := (List.eq_nil_or_concat data).resolve_left nonempty
  rw [List.concat_eq_append]
  have digits : hex_digits last = (hex_digits last).dropLast ++ [':'] := rfl
  change (String.ofList ((front ++ [last]).flatMap hex_digits).dropLast).toList ++ [':'] = _
  rw [String.toList_ofList, List.flatMap_append, List.flatMap_singleton, digits, ← List.append_assoc, List.dropLast_concat]

theorem hexStr_injective {first second : List UInt8} (lengths : first.length = second.length)
    (same : hexStr first = hexStr second) : first = second := by
  by_cases empty : first = []
  · subst empty
    exact (List.length_eq_zero_iff.mp lengths.symm).symm
  · have other : second ≠ [] := by
      intro none
      rw [none, List.length_nil] at lengths
      exact empty (List.length_eq_zero_iff.mp lengths)
    apply flatMap_hex_digits_injective
    rw [← hexStr_separator empty, ← hexStr_separator other, same]

end NetworkSimulator.Simulator
