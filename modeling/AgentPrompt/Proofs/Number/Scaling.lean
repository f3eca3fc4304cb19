import AgentPrompt.Proofs.Number.Rounding

/-! A decimal is read by rounding its digits, rounding a power of ten, and rounding their product or
quotient. Dividing never leaves the finite numbers, and multiplying only does so when the decimal
itself is within two unit roundoffs of the overflow point. -/
namespace AgentPrompt.Binary64

/-- The part of a factor by which two roundings can enlarge a product. -/
def twoRoundings : ℚ :=
  (1 + unitRoundoff) * (1 + unitRoundoff)

theorem one_le_twoRoundings : 1 ≤ twoRoundings := by
  norm_num [twoRoundings, unitRoundoff]

/-- The overflow point is a whole number. -/
theorem overflow_eq : overflow = (((2 ^ 54 - 1) * 2 ^ 970 : ℕ) : ℚ) := by
  have hp : (2 : ℚ) ^ 971 = 2 * 2 ^ 970 := pow_succ' 2 970
  rw [overflow, hp, Nat.cast_mul, Nat.cast_pow, Nat.cast_ofNat]
  generalize (2 : ℚ) ^ 970 = t
  norm_num
  ring

theorem ten_pow_lt_overflow {power : ℕ} (h : power ≤ 308) : (10 : ℚ) ^ power < overflow := by
  have hlt : 10 ^ 308 < (2 ^ 54 - 1) * 2 ^ 970 := by decide +kernel
  calc (10 : ℚ) ^ power ≤ 10 ^ 308 := pow_le_pow_right₀ (by norm_num) h
    _ < overflow := by
        rw [overflow_eq]
        exact_mod_cast hlt

theorem overflow_lt_ten_pow {power : ℕ} (h : 308 < power) : overflow < (10 : ℚ) ^ power := by
  have hlt : (2 ^ 54 - 1) * 2 ^ 970 < 10 ^ 309 := by decide +kernel
  calc overflow < 10 ^ 309 := by
        rw [overflow_eq]
        exact_mod_cast hlt
    _ ≤ 10 ^ power := pow_le_pow_right₀ (by norm_num) h

theorem exists_ofNat? {n : ℕ} (h : (n : ℚ) < overflow) : ∃ x, ofNat? n = some x :=
  exists_ofRatio? Nat.one_pos (by simpa using h)

theorem finite_of_ofNat? {n : ℕ} {x : Binary64} (h : ofNat? n = some x) : x.Finite :=
  finite_of_ofRatio? Nat.one_pos h

theorem magnitude_ofNat?_bounds {n : ℕ} (hn : 0 < n) {x : Binary64} (h : ofNat? n = some x) :
    1 ≤ x.magnitude ∧ x.magnitude ≤ n * (1 + unitRoundoff) := by
  have h1 : (1 : ℚ) ≤ n := by exact_mod_cast hn
  simpa using magnitude_ofRatio?_bounds Nat.one_pos (by simpa using h1) h

/-- A power of ten within the range of the numbers. -/
theorem exists_powerOfTen {power : ℕ} (h : power ≤ 308) :
    ∃ p, ofNat? (Nat.pow 10 power) = some p ∧ 1 ≤ p.magnitude ∧
      p.magnitude ≤ 10 ^ power * (1 + unitRoundoff) := by
  have hlt : ((Nat.pow 10 power : ℕ) : ℚ) < overflow := by
    simpa using ten_pow_lt_overflow h
  obtain ⟨p, hp⟩ := exists_ofNat? hlt
  have hpos : 0 < Nat.pow 10 power := Nat.pow_pos (by decide)
  have hb := magnitude_ofNat?_bounds hpos hp
  exact ⟨p, hp, hb.1, by simpa using hb.2⟩

theorem div?_eq (x y : Binary64) :
    x.div? y = (ofRatio? (x.numerator * y.denominator) (x.denominator * y.numerator)).map
      fun z => { z with negative := x.negative != y.negative } :=
  rfl

theorem mul?_eq (x y : Binary64) :
    x.mul? y = (ofRatio? (x.numerator * y.numerator) (x.denominator * y.denominator)).map
      fun z => { z with negative := x.negative != y.negative } :=
  rfl

/-- Dividing by at least one has a finite result. -/
theorem exists_div? {x y : Binary64} (hx : x.Finite) (hy : 1 ≤ y.magnitude) :
    ∃ z, x.div? y = some z ∧ z.Finite := by
  have hyn := numerator_pos (zero_lt_one.trans_le hy)
  have hd : 0 < x.denominator * y.numerator := Nat.mul_pos x.denominator_pos hyn
  have hquot : ((x.numerator * y.denominator : ℕ) : ℚ) / (x.denominator * y.numerator : ℕ) =
      x.magnitude / y.magnitude := by
    rw [← numerator_div_denominator, ← numerator_div_denominator, Nat.cast_mul, Nat.cast_mul,
      div_div_div_eq]
  have hlt : x.magnitude / y.magnitude < overflow :=
    (div_le_self x.magnitude_nonneg hy).trans_lt hx.magnitude_lt
  rw [← hquot] at hlt
  obtain ⟨z, hz⟩ := exists_ofRatio? hd hlt
  have hf := finite_of_ofRatio? hd hz
  exact ⟨{ z with negative := x.negative != y.negative }, by rw [div?_eq, hz, Option.map_some],
    hf.significand_lt, hf.exponent_le⟩

theorem exists_mul? {x y : Binary64} (h : x.magnitude * y.magnitude < overflow) :
    ∃ z, x.mul? y = some z := by
  have hd : 0 < x.denominator * y.denominator := Nat.mul_pos x.denominator_pos y.denominator_pos
  have hprod : ((x.numerator * y.numerator : ℕ) : ℚ) / (x.denominator * y.denominator : ℕ) =
      x.magnitude * y.magnitude := by
    rw [← numerator_div_denominator, ← numerator_div_denominator, Nat.cast_mul, Nat.cast_mul,
      div_mul_div_comm]
  rw [← hprod] at h
  obtain ⟨z, hz⟩ := exists_ofRatio? hd h
  exact ⟨_, by rw [mul?_eq, hz, Option.map_some]⟩

theorem finite_of_mul? {x y z : Binary64} (h : x.mul? y = some z) : z.Finite := by
  have hd : 0 < x.denominator * y.denominator := Nat.mul_pos x.denominator_pos y.denominator_pos
  rw [mul?_eq] at h
  obtain ⟨w, hw, rfl⟩ := Option.map_eq_some_iff.1 h
  have hf := finite_of_ofRatio? hd hw
  exact ⟨hf.significand_lt, hf.exponent_le⟩

/-- Scaling down always has a finite result, in however many steps. -/
theorem exists_scaleDown? {x : Binary64} (hx : x.Finite) (power : ℕ) :
    ∃ y, x.scaleDown? power = some y ∧ y.Finite := by
  induction power using Nat.strong_induction_on generalizing x with
  | _ power ih =>
    rw [scaleDown?]
    split
    · rename_i hp
      obtain ⟨p, hten, h1, -⟩ := exists_powerOfTen hp
      rw [hten, Option.bind_some]
      exact exists_div? hx h1
    · split
      · exact ⟨x, rfl, hx⟩
      · have hle : 308 ≤ 308 := Nat.le_refl 308
        obtain ⟨p, hten, h1, -⟩ := exists_powerOfTen hle
        obtain ⟨y, hy, hf⟩ := exists_div? hx h1
        rw [hten, Option.bind_some, hy, Option.bind_some]
        exact ih (power - 308) (by omega) hf

theorem finite_of_scaleUp? {x y : Binary64} {power : ℕ} (h : x.scaleUp? power = some y) :
    y.Finite := by
  rw [scaleUp?, Option.bind_eq_some_iff] at h
  obtain ⟨p, -, hp⟩ := h
  exact finite_of_mul? hp

theorem finite_of_ofDecimal? {significand : ℕ} {power : ℤ} {x : Binary64}
    (h : ofDecimal? significand power = some x) : x.Finite := by
  rw [ofDecimal?, Option.bind_eq_some_iff] at h
  obtain ⟨y, hy, h⟩ := h
  have hf := finite_of_ofNat? hy
  split at h
  · obtain ⟨z, hz, hzf⟩ := exists_scaleDown? hf (-power).toNat
    rw [hz] at h
    obtain rfl := Option.some.inj h
    exact hzf
  · split at h
    · exact finite_of_scaleUp? h
    · split at h
      · obtain rfl := Option.some.inj h
        exact hf
      · simp at h

/-- A decimal that stays below the overflow point under two roundings reads as a finite number. -/
theorem exists_ofDecimal? {significand : ℕ} {power : ℤ}
    (h : significand * 10 ^ power.toNat * twoRoundings < overflow) :
    ∃ x, ofDecimal? significand power = some x := by
  have hten : (1 : ℚ) ≤ 10 ^ power.toNat := one_le_pow₀ (by norm_num)
  have hs : (0 : ℚ) ≤ significand := Nat.cast_nonneg _
  have hscaled : (significand : ℚ) * 10 ^ power.toNat < overflow :=
    (le_mul_of_one_le_right (by positivity) one_le_twoRoundings).trans_lt h
  have hsig : (significand : ℚ) < overflow :=
    (le_mul_of_one_le_right hs hten).trans_lt hscaled
  obtain ⟨x, hx⟩ := exists_ofNat? hsig
  rw [ofDecimal?, hx, Option.bind_some]
  split
  · obtain ⟨y, hy, -⟩ := exists_scaleDown? (finite_of_ofNat? hx) (-power).toNat
    exact ⟨y, hy⟩
  · rename_i hneg
    rcases Nat.eq_zero_or_pos significand with rfl | hpos
    · obtain rfl : zero = x := by simpa [ofNat?, ofRatio?] using hx
      split
      · rename_i hp
        obtain ⟨p, hten, -⟩ := exists_powerOfTen (show power.toNat ≤ 308 by omega)
        rw [scaleUp?, hten, Option.bind_some]
        apply exists_mul?
        have hz : zero.magnitude = 0 := by simp [magnitude, zero]
        rw [hz, zero_mul]
        norm_num [overflow]
      · exact ⟨zero, rfl⟩
    · have hp : power ≤ 308 := by
        by_contra hp
        have hbig := overflow_lt_ten_pow (show 308 < power.toNat by omega)
        have h1 : (1 : ℚ) ≤ significand := by exact_mod_cast hpos
        have hle : (10 : ℚ) ^ power.toNat ≤ significand * 10 ^ power.toNat :=
          le_mul_of_one_le_left (by positivity) h1
        linarith
      rw [if_pos hp]
      obtain ⟨p, hten, h1, hpu⟩ := exists_powerOfTen (show power.toNat ≤ 308 by omega)
      have hxu := (magnitude_ofNat?_bounds hpos hx).2
      rw [scaleUp?, hten, Option.bind_some]
      apply exists_mul?
      calc x.magnitude * p.magnitude
          ≤ (significand * (1 + unitRoundoff)) * (10 ^ power.toNat * (1 + unitRoundoff)) :=
            mul_le_mul hxu hpu p.magnitude_nonneg (by norm_num [unitRoundoff])
        _ = significand * 10 ^ power.toNat * twoRoundings := by
            rw [twoRoundings]
            ring
        _ < overflow := h

end AgentPrompt.Binary64
