import AgentPrompt.Proofs.Json.Numeral
import AgentPrompt.Proofs.Number.ShortestBound

/-! A floating-point number is printed at most half a unit above its value, which leaves room for
the two roundings of the reader, except for the two largest numbers, whose texts are read here. -/
namespace AgentPrompt.Json
open Decimal (digitText)

namespace Number

/-- Numbers that the reader can return. -/
def Valid : Number → Prop
  | .int n => minInt ≤ n ∧ n ≤ maxInt
  | .float x => x.Finite

def isNegative : Number → Bool
  | .int n => n < 0
  | .float x => x.negative

end Number

/-! ## Significand and scale of a token -/

theorem foldl_digits_le (ds : List Char) (n : Nat) : n ≤ Nat.ofDigitChars 10 ds n := by
  rw [Nat.ofDigitChars_eq_ofDigitChars_zero]
  have hp : 1 ≤ 10 ^ ds.length := Nat.one_le_two_pow.trans (Nat.pow_le_pow_left (by decide) _)
  have hle : 1 * n ≤ 10 ^ ds.length * n := Nat.mul_le_mul_right n hp
  omega

theorem ofDigitChars_lt {ds : List Char} (h : AllDigits ds) :
    Nat.ofDigitChars 10 ds 0 < 10 ^ ds.length := by
  induction ds with
  | nil => decide
  | cons c ds ih =>
    have hc : c.isDigit = true := h c List.mem_cons_self
    have hds : AllDigits ds := fun d hd => h d (List.mem_cons_of_mem _ hd)
    have hlt := ih hds
    have hdigit : c.toNat - 48 ≤ 9 := by
      simp only [Char.isDigit, Bool.and_eq_true, decide_eq_true_eq] at hc
      have hle : c.val.toNat ≤ 57 := hc.2
      have hn : c.toNat = c.val.toNat := rfl
      omega
    rw [Nat.ofDigitChars_cons, Nat.ofDigitChars_eq_ofDigitChars_zero, List.length_cons,
      Nat.pow_succ]
    have hle : 10 ^ ds.length * (10 * 0 + (c.toNat - '0'.toNat)) ≤ 10 ^ ds.length * 9 :=
      Nat.mul_le_mul_left _ (by simpa using hdigit)
    omega

/-- What `gather` takes is a number below the limit made of the digits it does not return. -/
theorem gather_spec {n : Nat} (hn : n < Nat.pow 2 64) (ds : List Char) :
    (gather n ds).1 < Nat.pow 2 64 ∧ ∃ taken, ds = taken ++ (gather n ds).2 ∧
      (gather n ds).1 = Nat.ofDigitChars 10 taken n := by
  induction ds generalizing n with
  | nil => exact ⟨hn, [], rfl, rfl⟩
  | cons d ds ih =>
    simp only [gather]
    split
    · rename_i hlt
      obtain ⟨hbound, taken, hds, hv⟩ := ih hlt
      refine ⟨hbound, d :: taken, by rw [List.cons_append, ← hds], ?_⟩
      rw [hv, Nat.ofDigitChars_cons, Nat.mul_comm]
      rfl
    · exact ⟨hn, [], rfl, rfl⟩

/-- Digits of a number below the limit are all taken. -/
theorem gather_eq {ds : List Char} {n : Nat} (h : Nat.ofDigitChars 10 ds n < Nat.pow 2 64) :
    gather n ds = (Nat.ofDigitChars 10 ds n, []) := by
  induction ds generalizing n with
  | nil => rfl
  | cons d ds ih =>
    have hnext : n * 10 + digitValue d = 10 * n + (d.toNat - '0'.toNat) := by
      rw [Nat.mul_comm]
      rfl
    rw [Nat.ofDigitChars_cons, ← hnext] at h
    have hlt : n * 10 + digitValue d < Nat.pow 2 64 := (foldl_digits_le ds _).trans_lt h
    simp only [gather]
    rw [if_pos hlt, ih h, Nat.ofDigitChars_cons, ← hnext]

namespace NumberToken

def significand (t : NumberToken) : Nat :=
  (gather (gather 0 t.whole).1 t.fraction).1

/-- The digits that are left out of the significand. -/
def overflow (t : NumberToken) : List Char :=
  (gather 0 t.whole).2

def ignored (t : NumberToken) : List Char :=
  (gather (gather 0 t.whole).1 t.fraction).2

def scale (t : NumberToken) : Int :=
  t.overflow.length - (t.fraction.length - t.ignored.length : Nat) + t.power

theorem significand_lt (t : NumberToken) : t.significand < Nat.pow 2 64 :=
  (gather_spec (gather_spec (by decide) t.whole).1 t.fraction).1

/-- The value of a token that is no whole number. -/
theorem value_eq_float {t : NumberToken} (h : t.plain = false) :
    t.value = match Binary64.ofDecimal? t.significand t.scale with
      | some x => .ok (.float (if t.negative then x.neg else x))
      | none => .error .numberOutOfRange := by
  simp only [value, h, Bool.false_and, Bool.false_eq_true, if_false]
  rfl

theorem valid_of_value {t : NumberToken} {m : Number} (h : t.value = .ok m) : m.Valid := by
  have hs := t.significand_lt
  have hfloat : ∀ scale, (match Binary64.ofDecimal? t.significand scale with
      | some x => Except.ok (Number.float (if t.negative then x.neg else x))
      | none => .error Fault.numberOutOfRange) = .ok m → m.Valid := by
    intro scale hm
    split at hm
    · rename_i x hx
      obtain rfl := Except.ok.inj hm
      have hf := Binary64.finite_of_ofDecimal? hx
      show (if t.negative then x.neg else x).Finite
      split
      · exact hf.neg
      · exact hf
    · simp at hm
  change (if t.plain && t.overflow.isEmpty then
      if !t.negative then Except.ok (Number.int t.significand)
      else if 0 < t.significand ∧ t.significand ≤ Nat.pow 2 63 then
        .ok (.int (-t.significand))
      else _
    else _) = _ at h
  split at h
  · split at h
    · obtain rfl := Except.ok.inj h
      show minInt ≤ (t.significand : Int) ∧ (t.significand : Int) ≤ maxInt
      simp only [minInt, maxInt, Nat.pow_eq] at hs ⊢
      omega
    · split at h
      · rename_i hn
        obtain rfl := Except.ok.inj h
        show minInt ≤ -(t.significand : Int) ∧ -(t.significand : Int) ≤ maxInt
        simp only [minInt, maxInt, Nat.pow_eq] at hn ⊢
        omega
      · exact hfloat 0 h
  · exact hfloat t.scale h

/-- A token has a value when its decimal leaves room for two roundings. -/
theorem exists_value {t : NumberToken} (hp : t.plain = false)
    (h : t.significand * 10 ^ t.scale.toNat * Binary64.twoRoundings < Binary64.overflow) :
    ∃ m, t.value = .ok m := by
  obtain ⟨x, hx⟩ := Binary64.exists_ofDecimal? h
  rw [value_eq_float hp, hx]
  exact ⟨_, rfl⟩

theorem small_lt_overflow {n : Nat} (h : n < Nat.pow 2 64) :
    (n : ℚ) * 10 ^ 0 * Binary64.twoRoundings < Binary64.overflow := by
  have hn : (n : ℚ) ≤ 2 ^ 64 := by exact_mod_cast h.le
  have hp : (2 : ℚ) ^ 64 ≤ 2 ^ 971 := pow_le_pow_right₀ (by norm_num) (by norm_num)
  have hpos : (0 : ℚ) < 2 ^ 971 := by positivity
  unfold Binary64.overflow Binary64.twoRoundings Binary64.unitRoundoff
  generalize (2 : ℚ) ^ 971 = t at hp hpos ⊢
  norm_num at hp ⊢
  linarith

/-- Without a positive scale every significand is small enough. -/
theorem exists_value_of_scale_le {t : NumberToken} (hp : t.plain = false) (h : t.scale ≤ 0) :
    ∃ m, t.value = .ok m := by
  apply exists_value hp
  rw [Int.toNat_of_nonpos h]
  exact small_lt_overflow t.significand_lt

end NumberToken

/-! ## Numerals of numbers -/

def intNumeral (n : Int) : Numeral :=
  ⟨digitText n.natAbs, [], none⟩

/-- The numeral of a positional text: the digits before the point are `front`, and a zero stands in
for missing ones after it. -/
def pointNumeral (front back : List Char) : Numeral :=
  ⟨front, if back.isEmpty then ['0'] else back, none⟩

def positionalNumeral (digits : List Char) (whole : Int) : Numeral :=
  if whole ≤ 0 then pointNumeral ['0'] (List.replicate (-whole).toNat '0' ++ digits)
  else
    pointNumeral (digits.take whole.toNat ++ List.replicate (whole.toNat - digits.length) '0')
      (digits.drop whole.toNat)

def scientificNumeral (digits : List Char) (exponent : Int) : Numeral :=
  ⟨digits.take 1, digits.drop 1, some exponent⟩

def decimalNumeral (d : Decimal) : Numeral :=
  if positionalLow ≤ d.leadingExponent ∧ d.leadingExponent < positionalHigh then
    positionalNumeral (digitText d.digits) (d.leadingExponent + 1)
  else scientificNumeral (digitText d.digits) d.leadingExponent

def magnitudeNumeral (x : Binary64) : Numeral :=
  if x.isZero then pointNumeral ['0'] [] else decimalNumeral x.shortest

def Number.numeral : Number → Numeral
  | .int n => intNumeral n
  | .float x => magnitudeNumeral x

theorem pointNumeral_text (front back : List Char) :
    (pointNumeral front back).text = front ++ '.' :: (if back.isEmpty then ['0'] else back) := by
  cases back with
  | nil => simp [pointNumeral, Numeral.text, fractionText, powerText]
  | cons c back => simp [pointNumeral, Numeral.text, fractionText, powerText]

theorem positionalNumeral_text {digits : List Char} (hd : digits ≠ []) (whole : Int) :
    (positionalNumeral digits whole).text = positional digits whole := by
  simp only [positionalNumeral, positional]
  split
  · have hne : (List.replicate (-whole).toNat '0' ++ digits).isEmpty = false := by simp [hd]
    rw [pointNumeral_text, hne]
    rfl
  · rw [pointNumeral_text]

theorem scientificNumeral_text (digits : List Char) (exponent : Int) :
    (scientificNumeral digits exponent).text = scientific digits exponent := by
  match digits with
  | [] => simp [scientificNumeral, Numeral.text, scientific, fractionText, powerText]
  | [d] => simp [scientificNumeral, Numeral.text, scientific, fractionText, powerText]
  | d :: e :: more => simp [scientificNumeral, Numeral.text, scientific, fractionText, powerText]

theorem magnitudeNumeral_text (x : Binary64) : (magnitudeNumeral x).text = magnitudeText x := by
  simp only [magnitudeNumeral, magnitudeText]
  split
  · rfl
  · simp only [decimalNumeral]
    split
    · exact positionalNumeral_text (digitText_ne_nil _) _
    · exact scientificNumeral_text _ _

/-- A printed number is its numeral, after a sign if it is negative. -/
theorem numeral_text (n : Number) :
    n.text = (if n.isNegative then ['-'] else []) ++ n.numeral.text := by
  cases n with
  | int n =>
    have ht : (intNumeral n).text = digitText n.natAbs := by
      simp [intNumeral, Numeral.text, fractionText, powerText]
    by_cases hn : n < 0
    · simp [Number.text, intText, Number.isNegative, Number.numeral, hn, ht]
    · simp [Number.text, intText, Number.isNegative, Number.numeral, hn, ht]
  | float x =>
    cases hx : x.negative with
    | false => simp [Number.text, Number.isNegative, Number.numeral, hx, magnitudeNumeral_text]
    | true => simp [Number.text, Number.isNegative, Number.numeral, hx, magnitudeNumeral_text]

theorem wellFormed_pointNumeral {front back : List Char} (hf : WholeDigits front)
    (hb : AllDigits back) : (pointNumeral front back).WellFormed := by
  refine ⟨hf, ?_⟩
  show AllDigits (if back.isEmpty then ['0'] else back)
  split
  · exact wholeDigits_zero.digits
  · exact hb

theorem allDigits_replicate_zero (n : Nat) : AllDigits (List.replicate n '0') := by
  intro c hc
  rw [List.eq_of_mem_replicate hc]
  rfl

/-- The digits before the point of a number from one on start with no zero, unless all of it is
zero. -/
theorem wholeDigits_front {n : Nat} {whole : Nat} (hw : 0 < whole) (hz : n = 0 → whole = 1) :
    WholeDigits
      ((digitText n).take whole ++ List.replicate (whole - (digitText n).length) '0') := by
  obtain ⟨c, ds, hd⟩ := List.exists_cons_of_ne_nil (digitText_ne_nil n)
  have hall := allDigits_digitText n
  have htake : (digitText n).take whole = c :: ds.take (whole - 1) := by
    obtain ⟨k, rfl⟩ := Nat.exists_eq_add_of_lt hw
    simp [hd]
  refine ⟨by simp [htake], ?_, fun hh => ?_⟩
  · intro d hm
    rcases List.mem_append.1 hm with hm | hm
    · exact hall d (List.mem_of_mem_take hm)
    · exact allDigits_replicate_zero _ d hm
  · rcases Nat.eq_zero_or_pos n with rfl | hn
    · rw [digitText_zero, hz rfl]
      rfl
    · refine absurd ?_ (head_digitText_ne_zero hn)
      rw [htake] at hh
      rw [hd]
      simpa using hh

theorem leadingExponent_of_plainZero {d : Decimal} (h : d.PlainZero) (hz : d.digits = 0) :
    d.leadingExponent = 0 := by
  simp [Decimal.leadingExponent, h hz, hz, digitText_zero]

theorem wellFormed_positional {d : Decimal} (h : d.PlainZero) :
    (positionalNumeral (digitText d.digits) (d.leadingExponent + 1)).WellFormed := by
  have hall := allDigits_digitText d.digits
  rw [positionalNumeral]
  split
  · refine wellFormed_pointNumeral wholeDigits_zero fun c hc => ?_
    rcases List.mem_append.1 hc with hc | hc
    · exact allDigits_replicate_zero _ c hc
    · exact hall c hc
  · rename_i hw
    refine wellFormed_pointNumeral (wholeDigits_front (by omega) fun hz => ?_) fun c hc =>
      hall c (List.mem_of_mem_drop hc)
    rw [leadingExponent_of_plainZero h hz]
    rfl

theorem wellFormed_scientific (n : Nat) (exponent : Int) :
    (scientificNumeral (digitText n) exponent).WellFormed := by
  obtain ⟨c, ds, hd⟩ := List.exists_cons_of_ne_nil (digitText_ne_nil n)
  have hall := allDigits_digitText n
  rw [hd] at hall
  rw [hd]
  exact ⟨wholeDigits_single (hall c List.mem_cons_self),
    fun e he => hall e (List.mem_cons_of_mem _ he)⟩

theorem wellFormed_decimal {d : Decimal} (h : d.PlainZero) : (decimalNumeral d).WellFormed := by
  rw [decimalNumeral]
  split
  · exact wellFormed_positional h
  · exact wellFormed_scientific _ _

theorem wellFormed_numeral (n : Number) : n.numeral.WellFormed := by
  cases n with
  | int n => exact ⟨wholeDigits_digitText _, by simp [AllDigits, Number.numeral, intNumeral]⟩
  | float x =>
    show (magnitudeNumeral x).WellFormed
    rw [magnitudeNumeral]
    split
    · exact wellFormed_pointNumeral wholeDigits_zero (by simp [AllDigits])
    · rename_i hx
      exact wellFormed_decimal (Binary64.shortest_spec (by simpa using hx)).2

/-! ## Values of numerals -/

/-- The value of a numeral as a token. -/
def Numeral.value (n : Numeral) (negative : Bool) : Except Fault Number :=
  (n.token negative).value

theorem intNumeral_value {n : Int} (h : (Number.int n).Valid) :
    (intNumeral n).value (n < 0) = .ok (.int n) := by
  obtain ⟨hmin, hmax⟩ : minInt ≤ n ∧ n ≤ maxInt := h
  simp only [minInt, maxInt, Nat.pow_eq] at hmin hmax
  have hdigits : Nat.ofDigitChars 10 (digitText n.natAbs) 0 = n.natAbs :=
    Nat.ofDigitChars_ten_toDigits
  have hlt : Nat.ofDigitChars 10 (digitText n.natAbs) 0 < Nat.pow 2 64 := by
    rw [hdigits, Nat.pow_eq]
    omega
  have hg := gather_eq hlt
  rw [hdigits] at hg
  simp only [Numeral.value, Numeral.token, intNumeral, NumberToken.value, hg, gather,
    List.isEmpty_nil, Option.isNone_none, Bool.and_self, if_true, Nat.pow_eq]
  by_cases hn : n < 0
  · have hrange : 0 < n.natAbs ∧ n.natAbs ≤ 2 ^ 63 := by omega
    have habs : -(n.natAbs : Int) = n := by omega
    simp only [hn, decide_true, Bool.not_true, Bool.false_eq_true, if_false, hrange, and_self,
      if_true, habs]
  · have habs : (n.natAbs : Int) = n := by omega
    simp [hn, habs]

theorem gather_short {ds : List Char} (hd : AllDigits ds) (h : ds.length ≤ 16) :
    (gather 0 ds).2 = [] := by
  have hlt : Nat.ofDigitChars 10 ds 0 < Nat.pow 2 64 := by
    calc Nat.ofDigitChars 10 ds 0 < 10 ^ ds.length := ofDigitChars_lt hd
      _ ≤ 10 ^ 16 := Nat.pow_le_pow_right (by decide) h
      _ < Nat.pow 2 64 := by decide
  rw [gather_eq hlt]

/-- A numeral with a point and few digits before it has a value. -/
theorem exists_value_pointNumeral {front back : List Char} (hf : AllDigits front)
    (hlen : front.length ≤ 16) (negative : Bool) :
    ∃ m, (pointNumeral front back).value negative = .ok m := by
  have hplain : ((pointNumeral front back).token negative).plain = false := by
    cases back with
    | nil => rfl
    | cons c back => rfl
  apply NumberToken.exists_value_of_scale_le hplain
  have hover : ((pointNumeral front back).token negative).overflow = [] := gather_short hf hlen
  have hpower : ((pointNumeral front back).token negative).power = 0 := rfl
  rw [NumberToken.scale, hover, hpower, List.length_nil]
  omega

theorem exists_value_positional {d : Decimal} (h : d.PlainZero)
    (he : d.leadingExponent < positionalHigh) (negative : Bool) :
    ∃ m, (positionalNumeral (digitText d.digits) (d.leadingExponent + 1)).value negative =
      .ok m := by
  have hw := (wellFormed_positional h).whole.digits
  rw [positionalNumeral] at hw ⊢
  split
  · exact exists_value_pointNumeral wholeDigits_zero.digits (by decide) negative
  · rename_i hpos
    rw [if_neg hpos] at hw
    refine exists_value_pointNumeral hw ?_ negative
    simp only [positionalHigh] at he
    simp only [pointNumeral, List.length_append, List.length_take, List.length_replicate]
    omega

/-- The significand and scale of a scientific text are at most the decimal it was made from. -/
theorem scientific_token_le (d : Decimal) (negative : Bool) :
    let t := (scientificNumeral (digitText d.digits) d.leadingExponent).token negative
    (t.significand : ℚ) * 10 ^ t.scale ≤ d.value := by
  intro t
  obtain ⟨c, ds, hd⟩ := List.exists_cons_of_ne_nil (digitText_ne_nil d.digits)
  have hall := allDigits_digitText d.digits
  have hc : AllDigits [c] := by
    rw [hd] at hall
    simpa [AllDigits] using hall c List.mem_cons_self
  have hwhole : t.whole = [c] := by simp [t, scientificNumeral, Numeral.token, hd]
  have hfraction : t.fraction = ds := by simp [t, scientificNumeral, Numeral.token, hd]
  have hover : t.overflow = [] := by
    rw [NumberToken.overflow, hwhole]
    exact gather_short hc (by simp)
  have hcl : Nat.ofDigitChars 10 [c] 0 < Nat.pow 2 64 :=
    (ofDigitChars_lt hc).trans (show 10 ^ 1 < Nat.pow 2 64 by decide)
  obtain ⟨-, taken, htaken, hsig⟩ := gather_spec hcl ds
  have hg : (gather 0 t.whole).1 = Nat.ofDigitChars 10 [c] 0 := by
    rw [hwhole, gather_eq hcl]
  have hign : t.ignored = (gather (Nat.ofDigitChars 10 [c] 0) ds).2 := by
    rw [NumberToken.ignored, hg, hfraction]
  have hsig : t.significand = Nat.ofDigitChars 10 (c :: taken) 0 := by
    rw [NumberToken.significand, hg, hfraction, hsig]
    rfl
  rw [← hign] at htaken
  have hdigits : Nat.ofDigitChars 10 (c :: taken ++ t.ignored) 0 = d.digits := by
    rw [List.cons_append, ← htaken, ← hd]
    exact Nat.ofDigitChars_ten_toDigits
  have hle : t.significand * 10 ^ t.ignored.length ≤ d.digits := by
    rw [← hdigits, Nat.ofDigitChars_append, Nat.ofDigitChars_eq_ofDigitChars_zero, ← hsig,
      Nat.mul_comm]
    exact Nat.le_add_right _ _
  have hscale : t.scale = d.exponent + t.ignored.length := by
    have hpower : t.power = d.leadingExponent := rfl
    have hlen : ds.length = taken.length + t.ignored.length := by
      rw [← List.length_append, ← htaken]
    rw [NumberToken.scale, hover, hpower, hfraction, Decimal.leadingExponent, hd,
      List.length_nil, List.length_cons]
    omega
  have hq : (t.significand : ℚ) * 10 ^ t.ignored.length ≤ d.digits := by exact_mod_cast hle
  rw [hscale, Decimal.value, zpow_add₀ (by norm_num), zpow_natCast]
  calc (t.significand : ℚ) * (10 ^ d.exponent * 10 ^ t.ignored.length)
      = t.significand * 10 ^ t.ignored.length * 10 ^ d.exponent := by ring
    _ ≤ d.digits * 10 ^ d.exponent := by gcongr

theorem exists_value_scientific {d : Decimal}
    (h : d.value * Binary64.twoRoundings < Binary64.overflow) (negative : Bool) :
    ∃ m, (scientificNumeral (digitText d.digits) d.leadingExponent).value negative = .ok m := by
  have hle := scientific_token_le d negative
  have hplain : ((scientificNumeral (digitText d.digits) d.leadingExponent).token
      negative).plain = false := by
    simp [scientificNumeral, Numeral.token]
  rw [Numeral.value]
  generalize (scientificNumeral (digitText d.digits) d.leadingExponent).token negative = t
    at hle hplain ⊢
  rcases Int.le_total t.scale 0 with hs | hs
  · exact NumberToken.exists_value_of_scale_le hplain hs
  · apply NumberToken.exists_value hplain
    rw [← zpow_natCast, Int.toNat_of_nonneg hs]
    have htwo := Binary64.one_le_twoRoundings
    calc (t.significand : ℚ) * 10 ^ t.scale * Binary64.twoRoundings
        ≤ d.value * Binary64.twoRoundings := by gcongr
      _ < Binary64.overflow := h

theorem exists_value_decimal {d : Decimal} (hz : d.PlainZero)
    (h : d.value * Binary64.twoRoundings < Binary64.overflow) (negative : Bool) :
    ∃ m, (decimalNumeral d).value negative = .ok m := by
  rw [decimalNumeral]
  split
  · rename_i he
    exact exists_value_positional hz he.2 negative
  · exact exists_value_scientific h negative

/-- The decimals of the two largest numbers are read as they are. -/
theorem exists_value_largest {x : Binary64} (he : x.exponent = Binary64.maxExponent)
    (hs : x.significand = 2 ^ 53 - 1 ∨ x.significand = 2 ^ 53 - 2) (negative : Bool) :
    ∃ m, (magnitudeNumeral x).value negative = .ok m := by
  have hread : ∀ sign negative : Bool, ∀ s ∈ [2 ^ 53 - 1, 2 ^ 53 - 2],
      ((magnitudeNumeral ⟨sign, s, Binary64.maxExponent⟩).value negative).isOk = true := by
    decide +kernel
  obtain ⟨sign, s, e⟩ := x
  obtain rfl : e = Binary64.maxExponent := he
  have hs : s ∈ [2 ^ 53 - 1, 2 ^ 53 - 2] := by simpa using hs
  have hok := hread sign negative s hs
  cases hv : (magnitudeNumeral ⟨sign, s, Binary64.maxExponent⟩).value negative with
  | ok m => exact ⟨m, rfl⟩
  | error fault => simp [hv, Except.isOk, Except.toBool] at hok

theorem exists_value_magnitude {x : Binary64} (hx : x.Finite) (negative : Bool) :
    ∃ m, (magnitudeNumeral x).value negative = .ok m := by
  by_cases hl : x.exponent = Binary64.maxExponent ∧ Binary64.significandLimit ≤ x.significand + 2
  · have hs := hx.significand_lt
    simp only [Binary64.significandLimit, Nat.pow_eq] at hl hs
    exact exists_value_largest hl.1 (by omega) negative
  · rw [magnitudeNumeral]
    split
    · exact exists_value_pointNumeral wholeDigits_zero.digits (by decide) negative
    · rename_i hz
      have hspec := Binary64.shortest_spec (by simpa using hz)
      have hroom : x.exponent = Binary64.maxExponent →
          x.significand + 2 < Binary64.significandLimit := by
        intro he
        by_contra hs
        exact hl ⟨he, not_lt.1 hs⟩
      have htwo : (0 : ℚ) ≤ Binary64.twoRoundings :=
        zero_le_one.trans Binary64.one_le_twoRoundings
      refine exists_value_decimal hspec.2 ?_ negative
      calc x.shortest.value * Binary64.twoRoundings
          ≤ x.halfAbove * Binary64.twoRoundings := by
            gcongr
            exact hspec.1
        _ < Binary64.overflow := Binary64.halfAbove_twoRoundings_lt hx hroom

namespace Number

def reread (n : Number) : Number :=
  match n.numeral.value n.isNegative with
  | .ok m => m
  | .error _ => n

theorem value_numeral {n : Number} (h : n.Valid) :
    n.numeral.value n.isNegative = .ok n.reread := by
  obtain ⟨m, hm⟩ : ∃ m, n.numeral.value n.isNegative = .ok m := by
    cases n with
    | int n => exact ⟨_, intNumeral_value h⟩
    | float x => exact exists_value_magnitude h x.negative
  rw [reread, hm]

end Number

/-- A printed number is read back, up to what delimits it. -/
theorem readNumber_numeral {n : Number} (h : n.Valid) {s : List Char} (hs : Delimited s) :
    readNumber n.isNegative (n.numeral.text ++ s) = .ok (number n.reread, s) := by
  rw [Numeral.readNumber_text (wellFormed_numeral n) _ hs, ← Numeral.value, Number.value_numeral h]
  rfl

end AgentPrompt.Json
