import AgentPrompt.Number.Shortest
import AgentPrompt.Proofs.Number.Scaling
import Mathlib.Data.Nat.Cast.Order.Field

/-! The shortest decimal of a number is at most half a unit of the last place above it. -/
namespace AgentPrompt

namespace Decimal

def value (d : Decimal) : ℚ :=
  d.digits * 10 ^ d.exponent

theorem value_stripZeros (fuel : ℕ) (d : Decimal) : (stripZeros fuel d).value = d.value := by
  induction fuel generalizing d with
  | zero => rfl
  | succ fuel ih =>
    rw [stripZeros]
    split
    · rename_i h
      have hd : d.digits / 10 * 10 = d.digits := Nat.div_mul_cancel (Nat.dvd_of_mod_eq_zero h.2)
      have hq : ((d.digits / 10 : ℕ) : ℚ) * 10 = d.digits := by exact_mod_cast hd
      rw [ih, value, value, zpow_add_one₀ (by norm_num), ← hq]
      ring
    · rfl

/-- A zero is written without an exponent. -/
def PlainZero (d : Decimal) : Prop :=
  d.digits = 0 → d.exponent = 0

theorem plainZero_of_pos {d : Decimal} (h : 0 < d.digits) : d.PlainZero :=
  fun hz => absurd hz h.ne'

theorem plainZero_stripZeros {fuel : ℕ} {d : Decimal} (h : d.PlainZero) :
    (stripZeros fuel d).PlainZero := by
  induction fuel generalizing d with
  | zero => exact h
  | succ fuel ih =>
    rw [stripZeros]
    split
    · rename_i hz
      refine ih (plainZero_of_pos ?_)
      show 0 < d.digits / 10
      omega
    · exact h

end Decimal

namespace Binary64

def Interval.upper (i : Interval) : ℚ :=
  i.high / i.den

theorem roundQuotient_cases (num den : ℕ) :
    roundQuotient num den = num / den ∨ roundQuotient num den = num / den + 1 := by
  simp only [roundQuotient]
  split
  · exact Or.inl rfl
  · split
    · exact Or.inr rfl
    · split
      · exact Or.inl rfl
      · exact Or.inr rfl

section
variable {i : Interval} (hd : 0 < i.den)

include hd in
theorem Interval.holds_le {digits : ℕ} {exponent : ℤ} (h : i.holds digits exponent = true) :
    Decimal.value ⟨digits, exponent⟩ ≤ i.upper := by
  have hle : digits * Nat.pow 10 exponent.toNat * i.den ≤
      i.high * Nat.pow 10 (-exponent).toNat := by
    simp only [Interval.holds] at h
    split at h
    · simp only [Bool.and_eq_true, decide_eq_true_eq] at h
      exact h.2
    · simp only [Bool.and_eq_true, decide_eq_true_eq] at h
      exact h.2.le
  have hq : (0 : ℚ) < i.den := by exact_mod_cast hd
  have hp : (0 : ℚ) < 10 ^ (-exponent).toNat := by positivity
  have hz := zpow_mul_pow_toNat (show (10 : ℚ) ≠ 0 by norm_num) exponent
  have hle : (digits : ℚ) * 10 ^ exponent.toNat * i.den ≤ i.high * 10 ^ (-exponent).toNat := by
    exact_mod_cast hle
  rw [Decimal.value, Interval.upper, le_div_iff₀ hq, ← mul_le_mul_iff_left₀ hp]
  calc (digits : ℚ) * 10 ^ exponent * i.den * 10 ^ (-exponent).toNat
      = digits * (10 ^ exponent * 10 ^ (-exponent).toNat) * i.den := by ring
    _ ≤ i.high * 10 ^ (-exponent).toNat := by rwa [hz]

theorem Interval.holds_of_onGrid? {digits : ℕ} {exponent : ℤ}
    (h : i.onGrid? exponent = some digits) : i.holds digits exponent = true := by
  simp only [Interval.onGrid?] at h
  split at h
  · rename_i hlow hhigh
    obtain rfl := Option.some.inj h
    rcases roundQuotient_cases (i.value * Nat.pow 10 (-exponent).toNat)
      (i.den * Nat.pow 10 exponent.toNat) with hr | hr
    · rwa [hr]
    · rwa [hr]
  · rename_i hlow hhigh
    obtain rfl := Option.some.inj h
    exact hlow
  · rename_i hlow hhigh
    obtain rfl := Option.some.inj h
    exact hhigh
  · simp at h

theorem Interval.pos_of_holds (hl : 0 < i.low) {digits : ℕ} {exponent : ℤ}
    (h : i.holds digits exponent = true) : 0 < digits := by
  rcases Nat.eq_zero_or_pos digits with rfl | hpos
  · have hlow : 0 < i.low * Nat.pow 10 (-exponent).toNat :=
      Nat.mul_pos hl (Nat.pow_pos (by decide))
    simp only [Interval.holds, Nat.zero_mul] at h
    split at h
    · simp only [Bool.and_eq_true, decide_eq_true_eq] at h
      omega
    · simp only [Bool.and_eq_true, decide_eq_true_eq] at h
      omega
  · exact hpos

include hd in
/-- What the search finds is in the interval; what it falls back to is not above its number. -/
theorem Interval.shortestFrom_spec (hl : 0 < i.low) (hv : i.value ≤ i.high) (exponent : ℤ)
    (fuel : ℕ) :
    (i.shortestFrom exponent fuel).value ≤ i.upper ∧
      (i.shortestFrom exponent fuel).PlainZero := by
  induction fuel generalizing exponent with
  | zero =>
    refine ⟨?_, fun _ => rfl⟩
    have hvq : (i.value : ℚ) ≤ i.high := by exact_mod_cast hv
    rw [Interval.shortestFrom, Decimal.value, zpow_zero, mul_one, Interval.upper]
    calc ((i.value / i.den : ℕ) : ℚ) ≤ i.value / i.den := Nat.cast_div_le
      _ ≤ i.high / i.den := by gcongr
  | succ fuel ih =>
    rw [Interval.shortestFrom]
    split
    · rename_i digits h
      have hh := Interval.holds_of_onGrid? h
      exact ⟨Interval.holds_le hd hh, Decimal.plainZero_of_pos (Interval.pos_of_holds hl hh)⟩
    · exact ih _

end

/-- The point halfway to the next number with the same exponent. -/
def halfAbove (x : Binary64) : ℚ :=
  (x.significand + 1 / 2) * 2 ^ x.exponent

theorem interval_upper (x : Binary64) : x.interval.upper = x.halfAbove := by
  have hz := zpow_mul_pow_toNat (two_ne_zero (α := ℚ)) x.exponent
  have hp : (2 : ℚ) ^ (-x.exponent).toNat ≠ 0 := by positivity
  simp only [Interval.upper, interval, halfAbove, denominator, Nat.pow_eq, Nat.cast_mul,
    Nat.cast_add, Nat.cast_pow, Nat.cast_ofNat]
  rw [← hz]
  field_simp
  ring

theorem shortest_spec {x : Binary64} (h : x.isZero = false) :
    x.shortest.value ≤ x.halfAbove ∧ x.shortest.PlainZero := by
  have hs : 0 < x.significand := by
    simp only [isZero, beq_eq_false_iff_ne] at h
    omega
  have hscale : 0 < Nat.pow 2 x.exponent.toNat := Nat.pow_pos (by decide)
  have hd : 0 < x.interval.den := Nat.mul_pos (by decide) x.denominator_pos
  have hl : 0 < x.interval.low := by
    refine Nat.mul_pos ?_ hscale
    split
    · omega
    · omega
  have hv : x.interval.value ≤ x.interval.high :=
    Nat.mul_le_mul_right _ (Nat.le_add_right _ _)
  have hspec := Interval.shortestFrom_spec hd hl hv
    (floorLog10 x.numerator x.denominator) 17
  simp only [shortest, h, Bool.false_eq_true, if_false]
  refine ⟨?_, Decimal.plainZero_stripZeros hspec.2⟩
  rw [Decimal.value_stripZeros, ← interval_upper]
  exact hspec.1

/-- Below the two largest numbers there is room for two roundings. -/
theorem halfAbove_twoRoundings_lt {x : Binary64} (hx : x.Finite)
    (h : x.exponent = maxExponent → x.significand + 2 < significandLimit) :
    x.halfAbove * twoRoundings < overflow := by
  have hs := hx.significand_lt
  have he := hx.exponent_le
  simp only [significandLimit, Nat.pow_eq, maxExponent] at hs he h
  rcases lt_or_eq_of_le he with hlt | heq
  · have hs : (x.significand : ℚ) ≤ 2 ^ 53 := by exact_mod_cast hs.le
    have hp : (2 : ℚ) ^ x.exponent ≤ 2 ^ 970 := by
      calc (2 : ℚ) ^ x.exponent ≤ 2 ^ (970 : ℤ) := zpow_le_zpow_right₀ (by norm_num) (by omega)
        _ = 2 ^ 970 := zpow_natCast 2 970
    have hp' : (2 : ℚ) ^ 971 = 2 * 2 ^ 970 := pow_succ' 2 970
    calc x.halfAbove * twoRoundings
        ≤ ((2 ^ 53 + 1 / 2) * 2 ^ 970) * twoRoundings := by
          unfold halfAbove twoRoundings unitRoundoff
          gcongr
      _ < overflow := by
          have hpos : (0 : ℚ) < 2 ^ 970 := by positivity
          rw [overflow, hp', twoRoundings, unitRoundoff]
          generalize (2 : ℚ) ^ 970 = t at hpos ⊢
          norm_num
          linarith
  · have hs : x.significand + 3 ≤ 2 ^ 53 := h heq
    have hs : (x.significand : ℚ) + 3 ≤ 2 ^ 53 := by exact_mod_cast hs
    have hp : (2 : ℚ) ^ x.exponent = 2 ^ 971 := by
      rw [heq]
      exact zpow_natCast 2 971
    have hpos : (0 : ℚ) < 2 ^ 971 := by positivity
    have hle : (x.significand : ℚ) + 1 / 2 ≤ 2 ^ 53 - 5 / 2 := by linarith
    calc x.halfAbove * twoRoundings
        ≤ ((2 ^ 53 - 5 / 2) * 2 ^ 971) * twoRoundings := by
          unfold halfAbove twoRoundings unitRoundoff
          rw [hp]
          gcongr
      _ < overflow := by
          rw [overflow, twoRoundings, unitRoundoff]
          generalize (2 : ℚ) ^ 971 = t at hpos ⊢
          norm_num
          linarith

end Binary64
end AgentPrompt
