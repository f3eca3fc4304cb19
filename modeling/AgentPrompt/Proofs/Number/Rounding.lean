import AgentPrompt.Number.Binary64
import Mathlib.Algebra.Order.Field.Rat
import Mathlib.Algebra.Order.Field.Power
import Mathlib.Tactic.FieldSimp
import Mathlib.Tactic.Linarith
import Mathlib.Tactic.NormNum
import Mathlib.Tactic.Positivity
import Mathlib.Tactic.Ring

namespace AgentPrompt.Binary64

def magnitude (x : Binary64) : ℚ :=
  x.significand * 2 ^ x.exponent

structure Finite (x : Binary64) : Prop where
  significand_lt : x.significand < significandLimit
  exponent_le : x.exponent ≤ maxExponent

/-- Where rounding to a finite number ends. -/
def overflow : ℚ :=
  (2 ^ 53 - 1 / 2) * 2 ^ 971

/-- The largest relative error of a rounding that loses no place to the least exponent. -/
def unitRoundoff : ℚ :=
  1 / 2 ^ 53

theorem Finite.neg {x : Binary64} (h : x.Finite) : x.neg.Finite :=
  ⟨h.significand_lt, h.exponent_le⟩

theorem finite_zero : zero.Finite :=
  ⟨by decide, by decide⟩

theorem magnitude_nonneg (x : Binary64) : 0 ≤ x.magnitude := by
  unfold magnitude
  positivity

/-- A power with an integer exponent, without division. -/
theorem zpow_mul_pow_toNat {b : ℚ} (hb : b ≠ 0) (e : ℤ) :
    b ^ e * b ^ (-e).toNat = b ^ e.toNat := by
  rw [← zpow_natCast, ← zpow_natCast, ← zpow_add₀ hb]
  congr 1
  omega

theorem Finite.magnitude_lt {x : Binary64} (h : x.Finite) : x.magnitude < overflow := by
  have hs : (x.significand : ℚ) ≤ 2 ^ 53 - 1 := by
    have hlt := h.significand_lt
    have hle : x.significand + 1 ≤ 2 ^ 53 := hlt
    have hq : ((x.significand + 1 : ℕ) : ℚ) ≤ ((2 ^ 53 : ℕ) : ℚ) := by exact_mod_cast hle
    push_cast at hq
    linarith
  have hp : (2 : ℚ) ^ x.exponent ≤ 2 ^ (971 : ℤ) :=
    zpow_le_zpow_right₀ (by norm_num) h.exponent_le
  calc x.magnitude ≤ (2 ^ 53 - 1) * 2 ^ (971 : ℤ) := by
        unfold magnitude
        exact mul_le_mul hs hp (by positivity) (by norm_num)
    _ < overflow := by
        unfold overflow
        norm_num

theorem numerator_div_denominator (x : Binary64) :
    (x.numerator : ℚ) / x.denominator = x.magnitude := by
  have h := zpow_mul_pow_toNat (two_ne_zero (α := ℚ)) x.exponent
  simp only [numerator, denominator, magnitude, Nat.pow_eq, Nat.cast_mul, Nat.cast_pow,
    Nat.cast_ofNat]
  rw [← h]
  field_simp

theorem denominator_pos (x : Binary64) : 0 < x.denominator :=
  Nat.pow_pos (by decide)

theorem numerator_pos {x : Binary64} (h : 0 < x.magnitude) : 0 < x.numerator := by
  rw [← numerator_div_denominator] at h
  have hd : (0 : ℚ) < x.denominator := by exact_mod_cast x.denominator_pos
  have hn : (0 : ℚ) < x.numerator := by
    by_contra hn
    exact absurd h (not_lt.2 (div_nonpos_of_nonpos_of_nonneg (not_lt.1 hn) hd.le))
  exact_mod_cast hn

/-! ## Rounding a fraction -/

/-- Rounding to a whole number moves by at most one half. -/
theorem roundQuotient_near (num : ℕ) {den : ℕ} (hd : 0 < den) :
    (num : ℚ) / den - 1 / 2 ≤ roundQuotient num den ∧
      (roundQuotient num den : ℚ) ≤ num / den + 1 / 2 := by
  have hq : (0 : ℚ) < den := by exact_mod_cast hd
  have hdm := Nat.div_add_mod num den
  have hm := Nat.mod_lt num hd
  have key : 2 * num ≤ 2 * (den * roundQuotient num den) + den ∧
      2 * (den * roundQuotient num den) ≤ 2 * num + den := by
    simp only [roundQuotient]
    split
    · omega
    · split
      · rw [Nat.mul_add, Nat.mul_one]
        omega
      · split
        · omega
        · rw [Nat.mul_add, Nat.mul_one]
          omega
  obtain ⟨hl, hu⟩ := key
  have hl : 2 * (num : ℚ) ≤ 2 * (den * roundQuotient num den) + den := by exact_mod_cast hl
  have hu : 2 * (den * (roundQuotient num den : ℚ)) ≤ 2 * num + den := by exact_mod_cast hu
  constructor
  · rw [sub_le_iff_le_add, div_le_iff₀ hq]
    linarith
  · rw [← sub_le_iff_le_add, le_div_iff₀ hq]
    linarith

theorem le_roundQuotient {k num den : ℕ} (hd : 0 < den) (h : (k : ℚ) ≤ num / den) :
    k ≤ roundQuotient num den := by
  have hn := (roundQuotient_near num hd).1
  have hk : (k : ℚ) < (roundQuotient num den + 1 : ℕ) := by
    push_cast
    linarith
  exact Nat.lt_succ_iff.1 (by exact_mod_cast hk)

theorem roundQuotient_le {k num den : ℕ} (hd : 0 < den) (h : (num : ℚ) / den ≤ k) :
    roundQuotient num den ≤ k := by
  have hn := (roundQuotient_near num hd).2
  have hk : (roundQuotient num den : ℚ) < (k + 1 : ℕ) := by
    push_cast
    linarith
  exact Nat.lt_succ_iff.1 (by exact_mod_cast hk)

theorem two_pow_log2_le {n : ℕ} (h : 0 < n) : (2 : ℚ) ^ (n.log2 : ℤ) ≤ n := by
  rw [zpow_natCast]
  exact_mod_cast Nat.log2_self_le h.ne'

theorem lt_two_pow_log2 (n : ℕ) : (n : ℚ) < 2 ^ ((n.log2 : ℤ) + 1) := by
  have h : n < 2 ^ (n.log2 + 1) := Nat.lt_log2_self
  exact_mod_cast h

/-- The binary logarithm of a fraction, rounded down. -/
theorem floorLog2_spec {num den : ℕ} (hn : 0 < num) (hd : 0 < den) :
    (2 : ℚ) ^ floorLog2 num den ≤ num / den ∧ (num : ℚ) / den < 2 ^ (floorLog2 num den + 1) := by
  have hq : (0 : ℚ) < den := by exact_mod_cast hd
  have h2 : (2 : ℚ) ≠ 0 := two_ne_zero
  have hnl := two_pow_log2_le hn
  have hnu := lt_two_pow_log2 num
  have hdl := two_pow_log2_le hd
  have hdu := lt_two_pow_log2 den
  set e : ℤ := (num.log2 : ℤ) - den.log2 with he
  have hupper : (num : ℚ) / den < 2 ^ (e + 1) := by
    rw [div_lt_iff₀ hq]
    calc (num : ℚ) < 2 ^ ((num.log2 : ℤ) + 1) := hnu
      _ = 2 ^ (e + 1) * 2 ^ (den.log2 : ℤ) := by
          rw [← zpow_add₀ h2, he]
          congr 1
          ring
      _ ≤ 2 ^ (e + 1) * den := by gcongr
  have hlower : (2 : ℚ) ^ (e - 1) ≤ num / den := by
    rw [le_div_iff₀ hq]
    calc (2 : ℚ) ^ (e - 1) * den ≤ 2 ^ (e - 1) * 2 ^ ((den.log2 : ℤ) + 1) := by gcongr
      _ = 2 ^ (num.log2 : ℤ) := by
          rw [← zpow_add₀ h2, he]
          congr 1
          ring
      _ ≤ num := hnl
  have htest : den * Nat.pow 2 e.toNat ≤ num * Nat.pow 2 (-e).toNat ↔
      (2 : ℚ) ^ e ≤ num / den := by
    have hp : (0 : ℚ) < 2 ^ (-e).toNat := by positivity
    have hz := zpow_mul_pow_toNat h2 e
    rw [le_div_iff₀ hq, ← mul_le_mul_iff_left₀ hp, mul_right_comm, hz, mul_comm _ (den : ℚ)]
    simp only [Nat.pow_eq]
    exact_mod_cast Iff.rfl
  simp only [floorLog2, ← he, htest]
  split
  · exact ⟨by assumption, hupper⟩
  · rename_i hlt
    refine ⟨hlower, ?_⟩
    rw [sub_add_cancel]
    exact not_le.1 hlt

/-- The exponent of the last place that a fraction is rounded to. -/
def quantum (num den : ℕ) : ℤ :=
  max (floorLog2 num den - 52) minExponent

/-- The fraction in units of its last place, rounded. -/
def roundedUnits (num den : ℕ) : ℕ :=
  roundQuotient (num * Nat.pow 2 (-quantum num den).toNat) (den * Nat.pow 2 (quantum num den).toNat)

theorem ofRatio?_eq {num den : ℕ} (hn : num ≠ 0) :
    ofRatio? num den =
      if roundedUnits num den = significandLimit then
        if maxExponent < quantum num den + 1 then none
        else some ⟨false, Nat.pow 2 52, quantum num den + 1⟩
      else if maxExponent < quantum num den then none
      else some ⟨false, roundedUnits num den, quantum num den⟩ := by
  by_cases hr : roundedUnits num den = significandLimit
  · rw [if_pos hr]
    simp only [roundedUnits, quantum] at hr
    simp only [ofRatio?, hn, if_false, hr, if_true]
    rfl
  · rw [if_neg hr]
    simp only [roundedUnits, quantum] at hr
    simp only [ofRatio?, hn, if_false, hr]
    rfl

/-- The fraction in units of its last place. -/
theorem units_eq (num : ℕ) {den : ℕ} (hd : 0 < den) :
    ((num * Nat.pow 2 (-quantum num den).toNat : ℕ) : ℚ) /
      (den * Nat.pow 2 (quantum num den).toNat : ℕ) = num / den / 2 ^ quantum num den := by
  have hq : (den : ℚ) ≠ 0 := by exact_mod_cast hd.ne'
  have h := zpow_mul_pow_toNat (two_ne_zero (α := ℚ)) (quantum num den)
  simp only [Nat.pow_eq, Nat.cast_mul, Nat.cast_pow, Nat.cast_ofNat]
  rw [← h]
  field_simp

theorem roundedUnits_near (num : ℕ) {den : ℕ} (hd : 0 < den) :
    (num : ℚ) / den / 2 ^ quantum num den - 1 / 2 ≤ roundedUnits num den ∧
      (roundedUnits num den : ℚ) ≤ num / den / 2 ^ quantum num den + 1 / 2 := by
  have hden : 0 < den * Nat.pow 2 (quantum num den).toNat :=
    Nat.mul_pos hd (Nat.pow_pos (by decide))
  rw [← units_eq num hd]
  exact roundQuotient_near _ hden

section
variable {num den : ℕ} (hn : 0 < num) (hd : 0 < den)
include hn hd

theorem roundedUnits_le : roundedUnits num den ≤ 2 ^ 53 := by
  have hden : 0 < den * Nat.pow 2 (quantum num den).toNat :=
    Nat.mul_pos hd (Nat.pow_pos (by decide))
  apply roundQuotient_le hden
  rw [units_eq num hd, div_le_iff₀ (by positivity)]
  have hle : floorLog2 num den + 1 ≤ 53 + quantum num den := by
    have h : floorLog2 num den - 52 ≤ quantum num den := le_max_left _ _
    omega
  calc (num : ℚ) / den ≤ 2 ^ (floorLog2 num den + 1) := (floorLog2_spec hn hd).2.le
    _ ≤ 2 ^ (53 + quantum num den) := zpow_le_zpow_right₀ (by norm_num) hle
    _ = ((2 ^ 53 : ℕ) : ℚ) * 2 ^ quantum num den := by
        rw [zpow_add₀ two_ne_zero]
        norm_num

/-- A fraction from one on keeps all places. -/
theorem quantum_of_one_le (h : (1 : ℚ) ≤ num / den) :
    0 ≤ floorLog2 num den ∧ quantum num den = floorLog2 num den - 52 := by
  have hlog : 0 < floorLog2 num den + 1 := by
    have hlt : (2 : ℚ) ^ (0 : ℤ) < 2 ^ (floorLog2 num den + 1) := by
      rw [zpow_zero]
      exact h.trans_lt (floorLog2_spec hn hd).2
    exact (zpow_lt_zpow_iff_right₀ (by norm_num)).1 hlt
  have hmin : minExponent ≤ floorLog2 num den - 52 := by
    simp only [minExponent]
    omega
  exact ⟨by omega, max_eq_left hmin⟩

/-- A fraction from two to the power of 1024 on is beyond every finite number. -/
theorem overflow_le_of_floorLog2 (h : 1024 ≤ floorLog2 num den) : overflow ≤ num / den := by
  have hp : (2 : ℚ) ^ (1024 : ℤ) = 2 ^ 53 * 2 ^ 971 := by
    rw [← pow_add]
    rfl
  calc overflow ≤ 2 ^ (1024 : ℤ) := by
        rw [hp, overflow]
        gcongr
        norm_num
    _ ≤ 2 ^ floorLog2 num den := zpow_le_zpow_right₀ (by norm_num) h
    _ ≤ num / den := (floorLog2_spec hn hd).1

theorem quantum_le_of_lt_overflow (h : (num : ℚ) / den < overflow) :
    quantum num den ≤ maxExponent := by
  by_contra hq
  have hlog : 1024 ≤ floorLog2 num den := by
    simp only [quantum, maxExponent, minExponent] at hq
    omega
  exact absurd h (not_lt.2 (overflow_le_of_floorLog2 hn hd hlog))

theorem quantum_lt_of_lt_overflow (h : (num : ℚ) / den < overflow)
    (hr : roundedUnits num den = significandLimit) : quantum num den + 1 ≤ maxExponent := by
  have hle := quantum_le_of_lt_overflow hn hd h
  by_contra hq
  have heq : quantum num den = 971 := by
    simp only [maxExponent] at hle hq
    omega
  have hu := (roundedUnits_near num hd).2
  have hs : ((roundedUnits num den : ℕ) : ℚ) = 2 ^ 53 := by
    rw [hr]
    norm_num [significandLimit]
  rw [hs, heq, ← sub_le_iff_le_add, le_div_iff₀ (by positivity)] at hu
  refine absurd h (not_lt.2 ?_)
  unfold overflow
  exact_mod_cast hu

end

theorem finite_of_ofRatio? {num den : ℕ} (hd : 0 < den) {y : Binary64}
    (h : ofRatio? num den = some y) : y.Finite := by
  rcases Nat.eq_zero_or_pos num with rfl | hn
  · obtain rfl : zero = y := by simpa [ofRatio?] using h
    exact finite_zero
  · rw [ofRatio?_eq hn.ne'] at h
    split at h
    · split at h
      · simp at h
      · rename_i hq
        obtain rfl := Option.some.inj h
        have hs : Nat.pow 2 52 < significandLimit := by decide
        exact ⟨hs, not_lt.1 hq⟩
    · rename_i hr
      split at h
      · simp at h
      · rename_i hq
        obtain rfl := Option.some.inj h
        exact ⟨lt_of_le_of_ne (roundedUnits_le hn hd) hr, not_lt.1 hq⟩

/-- Rounding has a finite result below the overflow point. -/
theorem exists_ofRatio? {num den : ℕ} (hd : 0 < den) (h : (num : ℚ) / den < overflow) :
    ∃ y, ofRatio? num den = some y := by
  rcases Nat.eq_zero_or_pos num with rfl | hn
  · exact ⟨zero, by simp [ofRatio?]⟩
  · rw [ofRatio?_eq hn.ne']
    split
    · rename_i hr
      rw [if_neg (not_lt.2 (quantum_lt_of_lt_overflow hn hd h hr))]
      exact ⟨_, rfl⟩
    · rw [if_neg (not_lt.2 (quantum_le_of_lt_overflow hn hd h))]
      exact ⟨_, rfl⟩

theorem magnitude_ofRatio? {num den : ℕ} (hn : 0 < num) {y : Binary64}
    (h : ofRatio? num den = some y) :
    y.magnitude = roundedUnits num den * 2 ^ quantum num den := by
  rw [ofRatio?_eq hn.ne'] at h
  split at h
  · rename_i hr
    split at h
    · simp at h
    · obtain rfl := Option.some.inj h
      rw [magnitude, hr, zpow_add_one₀ two_ne_zero]
      norm_num [significandLimit]
      ring
  · split at h
    · simp at h
    · obtain rfl := Option.some.inj h
      rfl

/-- From one on, rounding moves a fraction by less than the unit roundoff and not below one. -/
theorem magnitude_ofRatio?_bounds {num den : ℕ} (hd : 0 < den) (h1 : (1 : ℚ) ≤ num / den)
    {y : Binary64} (h : ofRatio? num den = some y) :
    1 ≤ y.magnitude ∧ y.magnitude ≤ num / den * (1 + unitRoundoff) := by
  have hn : 0 < num := by
    rcases Nat.eq_zero_or_pos num with rfl | hn
    · norm_num at h1
    · exact hn
  obtain ⟨hlog, hq⟩ := quantum_of_one_le hn hd h1
  have hlower := (floorLog2_spec hn hd).1
  have hp : (0 : ℚ) < 2 ^ quantum num den := by positivity
  have hlast : (2 : ℚ) ^ 52 * 2 ^ quantum num den = 2 ^ floorLog2 num den := by
    rw [← zpow_natCast, ← zpow_add₀ two_ne_zero, hq]
    congr 1
    push_cast
    ring
  rw [magnitude_ofRatio? hn h]
  constructor
  · have hden : 0 < den * Nat.pow 2 (quantum num den).toNat :=
      Nat.mul_pos hd (Nat.pow_pos (by decide))
    have hunits : 2 ^ 52 ≤ roundedUnits num den := by
      apply le_roundQuotient hden
      rwa [units_eq num hd, le_div_iff₀ hp, Nat.cast_pow, Nat.cast_ofNat, hlast]
    have hunits : (2 : ℚ) ^ 52 ≤ roundedUnits num den := by exact_mod_cast hunits
    calc (1 : ℚ) ≤ 2 ^ floorLog2 num den := one_le_zpow₀ (by norm_num) hlog
      _ = 2 ^ 52 * 2 ^ quantum num den := hlast.symm
      _ ≤ roundedUnits num den * 2 ^ quantum num den := by gcongr
  · have hhalf : (1 / 2 : ℚ) * 2 ^ quantum num den ≤ num / den * unitRoundoff := by
      have hle : (2 : ℚ) ^ 52 * 2 ^ quantum num den ≤ num / den := by rwa [hlast]
      unfold unitRoundoff
      linarith
    calc (roundedUnits num den : ℚ) * 2 ^ quantum num den
        ≤ (num / den / 2 ^ quantum num den + 1 / 2) * 2 ^ quantum num den := by
          gcongr
          exact (roundedUnits_near num hd).2
      _ = num / den + 1 / 2 * 2 ^ quantum num den := by
          field_simp
      _ ≤ num / den * (1 + unitRoundoff) := by
          rw [mul_add, mul_one]
          linarith

end AgentPrompt.Binary64
