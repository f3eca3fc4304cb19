import AgentPrompt.Proofs.Json.Reread

/-! A whole number is written as digits without a needless zero at their start, after a sign if it
is negative. Every other number that the reader accepts, minus zero among them, is read as a
floating-point number. -/
namespace AgentPrompt.Json
open Decimal (digitText)

/-! ## The digits of a number and the number of its digits -/

theorem digitChar_digitValue {c : Char} (h : c.isDigit = true) :
    digitValue c < 10 ∧ (digitValue c).digitChar = c := by
  obtain ⟨hlow, hhigh⟩ := Char.isDigit_iff_toNat.1 h
  have hfirst : '0'.toNat = 48 := rfl
  have hlast : '9'.toNat = 57 := rfl
  have hchar : ∀ k < 10, Char.ofNat (48 + k) = k.digitChar := by decide
  have hlt : digitValue c < 10 := by
    unfold digitValue
    omega
  have hc : 48 + digitValue c = c.toNat := by
    unfold digitValue
    omega
  refine ⟨hlt, ?_⟩
  rw [← hchar _ hlt, hc, Char.ofNat_toNat]

theorem digitsValue_append_single (ds : List Char) (c : Char) :
    digitsValue (ds ++ [c]) = digitsValue ds * 10 + digitValue c := by
  rw [digitsValue, List.foldl_append]
  rfl

/-- Without the last digit of several, a whole number is left that is not zero. -/
theorem WholeDigits.front {ds : List Char} {c : Char} (h : WholeDigits (ds ++ [c]))
    (hne : ds ≠ []) : WholeDigits ds ∧ ds ≠ ['0'] := by
  obtain ⟨d, more, rfl⟩ := List.exists_cons_of_ne_nil hne
  have hd : d ≠ '0' := by
    rintro rfl
    have halone := h.zero_alone rfl
    simp at halone
  refine ⟨⟨hne, fun e he => h.digits e (List.mem_append_left _ he), fun hz => ?_⟩, fun hz => ?_⟩
  · exact absurd (by simpa using hz) hd
  · exact hd (List.cons.inj hz).1

/-- Digits are printed again as they were written. -/
theorem digitText_digitsValue {ds : List Char} (h : WholeDigits ds) :
    digitText (digitsValue ds) = ds := by
  -- from the last digit on, since the printer splits off the remainder by ten
  induction ds using List.reverseRecOn with
  | nil => exact absurd rfl h.ne_nil
  | append_singleton ds c ih =>
    obtain ⟨hlt, hchar⟩ := digitChar_digitValue (h.digits c (by simp))
    rw [digitsValue_append_single]
    by_cases hne : ds = []
    · subst hne
      rw [digitText, Nat.toDigits_of_lt_base (by simpa [digitsValue] using hlt)]
      simpa [digitsValue] using hchar
    · obtain ⟨hfront, hzero⟩ := h.front hne
      have hds := ih hfront
      have hpos : 0 < digitsValue ds := by
        refine Nat.pos_of_ne_zero fun h0 => hzero ?_
        rw [← hds, h0, digitText_zero]
      have hdiv : (digitsValue ds * 10 + digitValue c) / 10 = digitsValue ds := by omega
      have hmod : (digitsValue ds * 10 + digitValue c) % 10 = digitValue c := by omega
      rw [digitText, Nat.toDigits_of_base_le (by decide) (by omega), hdiv, hmod, hchar]
      exact congrArg (· ++ [c]) hds

theorem digitsValue_eq_zero_iff {ds : List Char} (h : WholeDigits ds) :
    digitsValue ds = 0 ↔ ds = ['0'] := by
  constructor
  · intro h0
    rw [← digitText_digitsValue h, h0, digitText_zero]
  · rintro rfl
    rfl

/-! ## Tokens -/

/-- The text of a whole number, with the number: digits without a needless zero at their start,
after a sign if the number is negative. Zero has no sign. -/
inductive IntegerToken : List Char → Int → Prop where
  | unsigned {ds : List Char} (h : WholeDigits ds) : IntegerToken ds (digitsValue ds)
  | negative {ds : List Char} (h : WholeDigits ds) (hz : ds ≠ ['0']) :
    IntegerToken ('-' :: ds) (-(digitsValue ds : Int))

def Integer64Token (token : List Char) (n : Int) : Prop :=
  IntegerToken token n ∧ -2 ^ 63 ≤ n ∧ n ≤ 2 ^ 64 - 1

/-- A number is printed as it was written. -/
theorem IntegerToken.intText_eq {token : List Char} {n : Int} (h : IntegerToken token n) :
    intText n = token := by
  cases h with
  | unsigned h =>
    rw [intText, if_neg (by omega), Int.natAbs_natCast, digitText_digitsValue h]
  | negative h hz =>
    have hpos := (digitsValue_eq_zero_iff h).not.2 hz
    rw [intText, if_pos (by omega), Int.natAbs_neg, Int.natAbs_natCast, digitText_digitsValue h]

/-- A token is not empty and starts as values do. -/
theorem IntegerToken.exists_cons {token : List Char} {n : Int} (h : IntegerToken token n) :
    ∃ c more, token = c :: more ∧ StartsValue c := by
  cases h with
  | unsigned h =>
    obtain ⟨c, more, rfl⟩ := List.exists_cons_of_ne_nil h.ne_nil
    exact ⟨c, more, rfl, Or.inr (h.digits c List.mem_cons_self)⟩
  | negative h hz => exact ⟨_, _, rfl, by simp [StartsValue]⟩

theorem not_isDigit_minus : Char.isDigit '-' = false := by
  decide

theorem integer64Token_unsigned_iff {ds : List Char} {n : Int} (hd : WholeDigits ds) :
    Integer64Token ds n ↔ n = digitsValue ds ∧ digitsValue ds < 2 ^ 64 := by
  constructor
  · rintro ⟨h, hlow, hhigh⟩
    cases h with
    | unsigned h => exact ⟨rfl, by omega⟩
    | negative h hz =>
      have hminus := hd.digits '-' List.mem_cons_self
      simp [not_isDigit_minus] at hminus
  · rintro ⟨rfl, hlt⟩
    exact ⟨.unsigned hd, by omega, by omega⟩

theorem integer64Token_negative_iff {ds : List Char} {n : Int} (hd : WholeDigits ds) :
    Integer64Token ('-' :: ds) n ↔
      n = -(digitsValue ds : Int) ∧ 0 < digitsValue ds ∧ digitsValue ds ≤ 2 ^ 63 := by
  constructor
  · rintro ⟨h, hlow, hhigh⟩
    cases h with
    | unsigned h =>
      have hminus := h.digits '-' List.mem_cons_self
      simp [not_isDigit_minus] at hminus
    | negative h hz =>
      exact ⟨rfl, Nat.pos_of_ne_zero ((digitsValue_eq_zero_iff h).not.2 hz), by omega⟩
  · rintro ⟨rfl, hpos, hle⟩
    exact ⟨.negative hd ((digitsValue_eq_zero_iff hd).not.1 hpos.ne'), by omega, by omega⟩

/-! ## The value of a token -/

namespace NumberToken

theorem overflow_eq_nil_iff {t : NumberToken} :
    t.overflow = [] ↔ digitsValue t.whole < 2 ^ 64 := by
  rw [digitsValue_eq]
  constructor
  · intro h0
    obtain ⟨hlt, taken, hds, hv⟩ := gather_spec (n := 0) (by decide) t.whole
    rw [show (gather 0 t.whole).2 = [] from h0, List.append_nil] at hds
    rwa [hv, ← hds] at hlt
  · intro h
    rw [overflow, gather_eq h]

def plainText (t : NumberToken) : List Char :=
  if t.negative then '-' :: t.whole else t.whole

def floatValue (t : NumberToken) (scale : Int) : Except Fault Number :=
  match Binary64.ofDecimal? t.significand scale with
  | some x => .ok (.float (if t.negative then x.neg else x))
  | none => .error .numberOutOfRange

theorem floatValue_ne_int (t : NumberToken) (scale : Int) (n : Int) :
    t.floatValue scale ≠ .ok (.int n) := by
  unfold floatValue
  split <;> simp

theorem value_eq (t : NumberToken) :
    t.value =
      if t.plain && t.overflow.isEmpty then
        if !t.negative then .ok (.int t.significand)
        else if 0 < t.significand ∧ t.significand ≤ 2 ^ 63 then .ok (.int (-t.significand))
        else t.floatValue 0
      else t.floatValue t.scale :=
  rfl

theorem significand_eq {t : NumberToken} (hf : t.fraction = [])
    (h : digitsValue t.whole < 2 ^ 64) : t.significand = digitsValue t.whole := by
  rw [digitsValue_eq] at h ⊢
  simp only [significand, hf, gather, gather_eq h]

/-- A token stands for a whole number exactly when it has neither point nor exponent and is written
as one that fits. -/
theorem value_eq_int_iff {t : NumberToken} (hw : WholeDigits t.whole)
    (hf : t.plain = true → t.fraction = []) {n : Int} :
    t.value = .ok (.int n) ↔ t.plain = true ∧ Integer64Token t.plainText n := by
  rw [value_eq, plainText]
  simp only [Bool.and_eq_true, List.isEmpty_iff, overflow_eq_nil_iff]
  split
  · rename_i h
    obtain ⟨hp, hlt⟩ := h
    rw [significand_eq (hf hp) hlt]
    by_cases hneg : t.negative = true
    · rw [if_neg (by simp [hneg]), if_pos hneg, integer64Token_negative_iff hw]
      split
      · rename_i hr
        simp only [hp, hr, and_true, true_and, Except.ok.injEq, Number.int.injEq, eq_comm]
      · rename_i hr
        exact ⟨fun h => absurd h (floatValue_ne_int _ _ _), fun h => absurd h.2.2 hr⟩
    · rw [if_pos (by simp [hneg]), if_neg hneg, integer64Token_unsigned_iff hw]
      simp only [hp, hlt, and_true, true_and, Except.ok.injEq, Number.int.injEq, eq_comm]
  · rename_i h
    refine ⟨fun h => absurd h (floatValue_ne_int _ _ _), fun ⟨hp, hfits⟩ => absurd ⟨hp, ?_⟩ h⟩
    split at hfits
    · have hle := ((integer64Token_negative_iff hw).1 hfits).2.2
      omega
    · exact ((integer64Token_unsigned_iff hw).1 hfits).2

end NumberToken

/-! ## Tokens in a longer text -/

/-- A text that goes on with nothing that could belong to a number. -/
def EndsNumber (s : List Char) : Prop :=
  EndsFraction s ∧ startsPower s = false

theorem readWhole_eq_ok_iff {s ds rest : List Char} :
    readWhole s = .ok (ds, rest) ↔ s = ds ++ rest ∧ WholeDigits ds ∧ NoDigit rest := by
  constructor
  · intro h
    unfold readWhole at h
    split at h
    · simp at h
    · rename_i after
      split at h
      · simp at h
      · rename_i hd
        obtain ⟨rfl, rfl⟩ := Prod.mk.inj (Except.ok.inj h)
        refine ⟨rfl, wholeDigits_zero, fun c hc => ?_⟩
        rw [Option.mem_def] at hc
        simpa [hc] using hd
    · rename_i c after hz
      split at h
      · rename_i hc
        obtain ⟨rfl, rfl⟩ := Prod.mk.inj (Except.ok.inj h)
        refine ⟨by simp [List.takeWhile_append_dropWhile], ⟨by simp, ?_, fun h0 => ?_⟩, ?_⟩
        · exact List.forall_mem_cons.2 ⟨hc, List.all_eq_true.1 List.all_takeWhile⟩
        · exact absurd (by simpa using h0) hz
        · intro d hd
          rw [Option.mem_def] at hd
          simpa [hd] using List.head?_dropWhile_not Char.isDigit after
      · simp at h
  · rintro ⟨rfl, hd, hr⟩
    exact readWhole_append hd hr

/-- No fraction is read exactly where none is written. -/
theorem readFraction_eq_nil_iff {s rest : List Char} :
    readFraction s = .ok ([], rest) ↔ rest = s ∧ s.head? ≠ some '.' := by
  unfold readFraction
  split
  · rename_i after
    simp only [List.head?_cons, ne_eq, not_true_eq_false, and_false, iff_false]
    split
    · simp
    · rename_i hne
      intro h
      simp [(Prod.mk.inj (Except.ok.inj h)).1] at hne
  · rename_i hdot
    have hhead : s.head? ≠ some '.' := fun h => by
      obtain ⟨t, rfl⟩ := List.head?_eq_some_iff.1 h
      exact hdot t rfl
    simp [hhead, eq_comm]

theorem readPower_of_not_starts {s : List Char} (h : startsPower s = false) :
    readPower s = .ok (0, s) := by
  unfold readPower
  split
  · simp [startsPower] at h
  · simp [startsPower] at h
  · rfl

/-- After its sign, a number is read as a whole one exactly when its digits are followed by nothing
else that belongs to a number, and are written as a whole number that fits. -/
theorem readNumber_eq_int_iff {negative : Bool} {s rest : List Char} {n : Int} :
    readNumber negative s = .ok (number (.int n), rest) ↔
      ∃ ds, s = ds ++ rest ∧ EndsNumber rest ∧ WholeDigits ds ∧
        Integer64Token (if negative then '-' :: ds else ds) n := by
  simp only [readNumber, Except.bind_eq_ok_iff, Prod.exists, Except.ok.injEq, Prod.mk.injEq,
    number.injEq]
  constructor
  · rintro ⟨ds, s₁, hwhole, fraction, s₂, hfraction, power, s₃, hpower, m, hm, rfl, rfl⟩
    obtain ⟨rfl, hd, hnodigit⟩ := readWhole_eq_ok_iff.1 hwhole
    have hvalue := (NumberToken.value_eq_int_iff (by exact hd) (by simp +contextual)).1 hm
    obtain ⟨hplain, htoken⟩ := hvalue
    simp only [Bool.and_eq_true, List.isEmpty_iff, Bool.not_eq_true'] at hplain
    obtain ⟨rfl, hstarts⟩ := hplain
    obtain ⟨rfl, hdot⟩ := readFraction_eq_nil_iff.1 hfraction
    rw [readPower_of_not_starts hstarts] at hpower
    obtain ⟨rfl, rfl⟩ := Prod.mk.inj (Except.ok.inj hpower)
    exact ⟨ds, rfl, ⟨⟨hnodigit, hdot⟩, hstarts⟩, hd, htoken⟩
  · rintro ⟨ds, rfl, ⟨⟨hnodigit, hdot⟩, hstarts⟩, hd, htoken⟩
    refine ⟨ds, rest, readWhole_append hd hnodigit, [], rest,
      readFraction_eq_nil_iff.2 ⟨rfl, hdot⟩, 0, rest, readPower_of_not_starts hstarts, .int n, ?_,
      rfl, rfl⟩
    rw [NumberToken.value_eq_int_iff (by exact hd) (by simp)]
    exact ⟨by simp [hstarts], htoken⟩

end AgentPrompt.Json
