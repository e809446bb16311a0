import Mathlib.Algebra.Order.Ring.Nat
import Mathlib.Tactic.Ring

/-! Natural numbers as binary64 values: rounding to 53 significant bits, ties to
even. Whole numbers stay whole, so sums of them need no fractions. -/

namespace Binary64

/-- The last place kept of a number. -/
def ulp (n : Nat) : Nat := 2 ^ (n.log2 - 52)

def round (n : Nat) : Nat :=
  let quotient := n / ulp n
  let remainder := n % ulp n
  if ulp n < 2 * remainder ∨ (ulp n = 2 * remainder ∧ quotient % 2 = 1) then (quotient + 1) * ulp n
  else quotient * ulp n

theorem ulp_pos (n : Nat) : 0 < ulp n := Nat.two_pow_pos _

theorem ulp_small {n : Nat} (small : n < 2 ^ 53) : ulp n = 1 := by
  by_cases zero : n = 0
  · subst zero
    rfl
  · have bits := (Nat.log2_lt zero).mpr small
    rw [ulp, Nat.sub_eq_zero_of_le (by omega), Nat.pow_zero]

theorem round_of_dvd {n : Nat} (whole : ulp n ∣ n) : round n = n := by
  have remainder := Nat.mod_eq_zero_of_dvd whole
  have positive := ulp_pos n
  simp only [round, remainder, Nat.mul_zero, Nat.not_lt_zero, false_or]
  rw [if_neg (by omega), Nat.div_mul_cancel whole]

/-- Below 2^53 every number is a binary64 value. -/
theorem round_small {n : Nat} (small : n < 2 ^ 53) : round n = n := by
  apply round_of_dvd
  rw [ulp_small small]
  exact Nat.one_dvd n

theorem round_le (n : Nat) : round n ≤ (n / ulp n + 1) * ulp n := by
  simp only [round]
  split
  · exact Nat.le_refl _
  · exact Nat.mul_le_mul_right _ (Nat.le_succ _)

theorem le_round (n : Nat) : n / ulp n * ulp n ≤ round n := by
  simp only [round]
  split
  · exact Nat.mul_le_mul_right _ (Nat.le_succ _)
  · exact Nat.le_refl _

theorem ulp_mono {m n : Nat} (le : m ≤ n) : ulp m ≤ ulp n := by
  by_cases zero : m = 0
  · subst zero
    exact Nat.pow_le_pow_right Nat.zero_lt_two (by simp)
  · have bits : m.log2 ≤ n.log2 := (Nat.le_log2 (by omega)).mpr ((Nat.log2_self_le zero).trans le)
    exact Nat.pow_le_pow_right Nat.zero_lt_two (by omega)

/-- A number has at most 53 places. -/
theorem quotient_lt (n : Nat) : n / ulp n < 2 ^ 53 := by
  have below := @Nat.lt_log2_self n
  rw [Nat.div_lt_iff_lt_mul (ulp_pos n), ulp, ← Nat.pow_add]
  exact Nat.lt_of_lt_of_le below (Nat.pow_le_pow_right Nat.zero_lt_two (by omega))

/-- And exactly 53 when its last place is above the units. -/
theorem le_of_ulp {n : Nat} (large : ulp n ≠ 1) : 2 ^ 52 * ulp n ≤ n := by
  by_cases zero : n = 0
  · subst zero
    exact absurd rfl large
  · have bits : 52 < n.log2 := by
      apply Classical.byContradiction
      intro short
      exact large (by rw [ulp, Nat.sub_eq_zero_of_le (by omega), Nat.pow_zero])
    rw [ulp, ← Nat.pow_add, Nat.add_sub_cancel' (by omega)]
    exact Nat.log2_self_le zero

theorem round_mono {m n : Nat} (le : m ≤ n) : round m ≤ round n := by
  have positive := ulp_pos n
  rcases Nat.eq_or_lt_of_le (ulp_mono le) with same | finer
  · rcases Nat.eq_or_lt_of_le (Nat.div_le_div_right le : m / ulp m ≤ n / ulp m) with equal | less
    · have remainders : m % ulp m ≤ n % ulp m := by
        have first := Nat.div_add_mod m (ulp m)
        have second := Nat.div_add_mod n (ulp m)
        rw [equal] at first
        omega
      simp only [round, ← same, equal]
      split
      · rw [if_pos (by omega)]
      · split
        · exact Nat.mul_le_mul_right _ (Nat.le_succ _)
        · exact Nat.le_refl _
    · calc round m ≤ (m / ulp m + 1) * ulp m := round_le m
        _ ≤ n / ulp m * ulp m := Nat.mul_le_mul_right _ less
        _ ≤ round n := by
          rw [same]
          exact le_round n
  · -- A coarser last place of `n` means at least one more binary digit.
    have twice : 2 * ulp m ≤ ulp n := by
      have exponents : m.log2 - 52 < n.log2 - 52 := (Nat.pow_lt_pow_iff_right (by omega)).mp finer
      rw [ulp, ulp, Nat.mul_comm, ← Nat.pow_succ]
      exact Nat.pow_le_pow_right Nat.zero_lt_two exponents
    have whole : 2 ^ 52 * ulp n ≤ n / ulp n * ulp n := by
      apply Nat.mul_le_mul_right
      rw [Nat.le_div_iff_mul_le positive]
      exact le_of_ulp (by have := ulp_pos m; omega)
    calc round m ≤ (m / ulp m + 1) * ulp m := round_le m
      _ ≤ 2 ^ 53 * ulp m := Nat.mul_le_mul_right _ (quotient_lt m)
      _ = 2 ^ 52 * (2 * ulp m) := by ring
      _ ≤ 2 ^ 52 * ulp n := Nat.mul_le_mul_left _ twice
      _ ≤ n / ulp n * ulp n := whole
      _ ≤ round n := le_round n

/-- Few enough units of any power of two are a binary64 value. -/
theorem round_scaled {quotient exponent : Nat} (places : quotient ≤ 2 ^ 53) :
    round (quotient * 2 ^ exponent) = quotient * 2 ^ exponent := by
  apply round_of_dvd
  by_cases zero : quotient = 0
  · subst zero
    simp
  have nonzero : quotient * 2 ^ exponent ≠ 0 := Nat.mul_ne_zero zero (Nat.two_pow_pos exponent).ne'
  rcases Nat.eq_or_lt_of_le places with full | less
  · have bits : (quotient * 2 ^ exponent).log2 = 53 + exponent := by
      rw [full, ← Nat.pow_add, Nat.log2_two_pow]
    rw [ulp, bits, full, ← Nat.pow_add]
    exact Nat.pow_dvd_pow 2 (by omega)
  · have bits : (quotient * 2 ^ exponent).log2 < 53 + exponent := by
      rw [Nat.log2_lt nonzero, Nat.pow_add]
      exact Nat.mul_lt_mul_of_pos_right less (Nat.two_pow_pos exponent)
    exact Nat.dvd_mul_left_of_dvd (Nat.pow_dvd_pow 2 (by omega)) quotient

theorem round_round (n : Nat) : round (round n) = round n := by
  have places := quotient_lt n
  have shape : round n = (n / ulp n + 1) * ulp n ∨ round n = n / ulp n * ulp n := by
    simp only [round]
    split
    · exact Or.inl rfl
    · exact Or.inr rfl
  rcases shape with up | down
  · rw [up]
    exact round_scaled places
  · rw [down]
    exact round_scaled (by omega)

/-- How many binary places after the point a quotient below 2^53 keeps. -/
def places (m n : Nat) : Nat :=
  let scale := 52 + n.log2 - m.log2
  if m * 2 ^ scale / n < 2 ^ 52 then scale + 1 else scale

/-- The quotient of two binary64 values, rounded and then cut to its integer part. -/
def truncatedQuotient (m n : Nat) : Nat :=
  let quotient := m * 2 ^ places m n / n
  let remainder := m * 2 ^ places m n % n
  (if n < 2 * remainder ∨ (n = 2 * remainder ∧ quotient % 2 = 1) then quotient + 1 else quotient) / 2 ^ places m n

/-- Below an integer there is room for rounding, if every bit of the divisor has
a place after the point. -/
private theorem quotient_room {m n scale : Nat} (fine : n ≤ 2 ^ scale) (positive : 0 < n) :
    m * 2 ^ scale / n < (m / n + 1) * 2 ^ scale ∧
      (m * 2 ^ scale % n ≠ 0 → m * 2 ^ scale / n + 1 < (m / n + 1) * 2 ^ scale) := by
  have split := Nat.div_add_mod (m * 2 ^ scale) n
  have unit := Nat.two_pow_pos scale
  have scaled : m * 2 ^ scale + 2 ^ scale ≤ n * ((m / n + 1) * 2 ^ scale) := by
    calc m * 2 ^ scale + 2 ^ scale = (m + 1) * 2 ^ scale := (Nat.succ_mul _ _).symm
      _ ≤ n * (m / n + 1) * 2 ^ scale := Nat.mul_le_mul_right _ (Nat.lt_mul_div_succ m positive)
      _ = n * ((m / n + 1) * 2 ^ scale) := Nat.mul_assoc _ _ _
  have first : m * 2 ^ scale / n < (m / n + 1) * 2 ^ scale := Nat.div_lt_of_lt_mul (by omega)
  refine ⟨first, fun inexact => ?_⟩
  apply Classical.byContradiction
  intro full
  have next : (m / n + 1) * 2 ^ scale = m * 2 ^ scale / n + 1 := by omega
  rw [next, Nat.mul_succ] at scaled
  omega

theorem truncatedQuotient_fine {m n : Nat} (fine : n ≤ 2 ^ places m n) (positive : 0 < n) : truncatedQuotient m n = m / n := by
  obtain ⟨room, inexact⟩ := quotient_room (m := m) fine positive
  have low : m / n * 2 ^ places m n ≤ m * 2 ^ places m n / n := by
    rw [Nat.le_div_iff_mul_le positive, Nat.mul_right_comm]
    exact Nat.mul_le_mul_right _ (Nat.div_mul_le_self m n)
  simp only [truncatedQuotient]
  split
  next up =>
    have above := inexact (by omega)
    exact Nat.div_eq_of_lt_le (by omega) above
  next => exact Nat.div_eq_of_lt_le low room

/-- Whole milliseconds, or any unit of few bits, are cut as integer division does. -/
theorem truncatedQuotient_eq {m n : Nat} (positive : 0 < n) (divisor : n < 2 ^ 21) (quotient : m / n < 2 ^ 31) :
    truncatedQuotient m n = m / n := by
  apply truncatedQuotient_fine _ positive
  have bits : m.log2 ≤ n.log2 + 31 := by
    by_cases zero : m = 0
    · subst zero
      simp
    · apply Nat.le_of_lt_succ
      rw [Nat.log2_lt zero]
      calc m < n * 2 ^ 31 := by rwa [Nat.mul_comm, ← Nat.div_lt_iff_lt_mul positive]
        _ ≤ 2 ^ (n.log2 + 1) * 2 ^ 31 := Nat.mul_le_mul_right _ (@Nat.lt_log2_self n).le
        _ = 2 ^ (n.log2 + 31 + 1) := by rw [← Nat.pow_add, Nat.add_right_comm]
  have enough : 21 ≤ places m n := by
    simp only [places]
    split <;> omega
  exact divisor.le.trans (Nat.pow_le_pow_right Nat.zero_lt_two enough)

end Binary64
