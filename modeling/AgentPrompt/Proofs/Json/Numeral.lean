import AgentPrompt.Json.Printer
import AgentPrompt.Json.Reader

namespace AgentPrompt.Json
open Decimal (digitText)

/-- What may follow a value inside a longer text. -/
def Delimited : List Char → Prop
  | [] => True
  | c :: _ => c = ',' ∨ c = ']' ∨ c = '\x7d'

def AllDigits (ds : List Char) : Prop :=
  ∀ c ∈ ds, c.isDigit = true

def NoDigit (s : List Char) : Prop :=
  ∀ c ∈ s.head?, c.isDigit = false

theorem Delimited.noDigit {s : List Char} (h : Delimited s) : NoDigit s := by
  cases s with
  | nil => simp [NoDigit]
  | cons c s => rcases h with rfl | rfl | rfl <;> simp [NoDigit]

theorem takeWhile_digits {ds s : List Char} (hd : AllDigits ds) (hs : NoDigit s) :
    (ds ++ s).takeWhile Char.isDigit = ds ∧ (ds ++ s).dropWhile Char.isDigit = s := by
  rw [List.takeWhile_append_of_pos hd, List.dropWhile_append_of_pos hd]
  cases s with
  | nil => simp
  | cons c s =>
    have hc : c.isDigit = false := hs c rfl
    simp [hc]

/-! ## Digits of a whole number -/

theorem digitText_ne_nil (n : Nat) : digitText n ≠ [] :=
  Nat.toDigits_ne_nil

theorem allDigits_digitText (n : Nat) : AllDigits (digitText n) :=
  fun _ hc => Nat.isDigit_of_mem_toDigits (by decide) (by decide) hc

theorem digitText_zero : digitText 0 = ['0'] :=
  Nat.toDigits_zero 10

theorem digitChar_ne_zero {n : Nat} (h : 0 < n) (hn : n < 10) : n.digitChar ≠ '0' := by
  have hall : ∀ k < 10, 0 < k → k.digitChar ≠ '0' := by decide
  exact hall n hn h

/-- The first digit of a positive number is not zero. -/
theorem head_digitText_ne_zero {n : Nat} (h : 0 < n) : (digitText n).head? ≠ some '0' := by
  induction n using Nat.strongRecOn with
  | ind n ih =>
    rcases Nat.lt_or_ge n 10 with hn | hn
    · rw [digitText, Nat.toDigits_of_lt_base hn]
      simpa using digitChar_ne_zero h hn
    · have hq : 0 < n / 10 := Nat.div_pos hn (by decide)
      have hlt : n / 10 < n := Nat.div_lt_self h (by decide)
      have hh := ih (n / 10) hlt hq
      rw [digitText, Nat.toDigits_of_base_le (by decide) hn]
      rw [digitText] at hh
      cases hd : Nat.toDigits 10 (n / 10) with
      | nil => exact absurd hd Nat.toDigits_ne_nil
      | cons c ds =>
        rw [hd] at hh
        simpa using hh

theorem digitsValue_eq (ds : List Char) : digitsValue ds = Nat.ofDigitChars 10 ds 0 := by
  rw [digitsValue, Nat.ofDigitChars_eq_foldl]
  congr 1
  funext n d
  rw [digitValue, Nat.mul_comm]
  rfl

theorem digitsValue_digitText (n : Nat) : digitsValue (digitText n) = n := by
  rw [digitsValue_eq, digitText, Nat.ofDigitChars_ten_toDigits]

/-! ## Reading the parts of a number -/

/-- Digits that may stand before a point: a zero stands alone. -/
structure WholeDigits (ds : List Char) : Prop where
  ne_nil : ds ≠ []
  digits : AllDigits ds
  zero_alone : ds.head? = some '0' → ds = ['0']

theorem wholeDigits_zero : WholeDigits ['0'] :=
  ⟨by simp, by simp [AllDigits], fun _ => rfl⟩

theorem wholeDigits_single {c : Char} (h : c.isDigit = true) : WholeDigits [c] :=
  ⟨by simp, by simp [AllDigits, h], by simp⟩

theorem wholeDigits_digitText (n : Nat) : WholeDigits (digitText n) := by
  refine ⟨digitText_ne_nil n, allDigits_digitText n, fun hz => ?_⟩
  rcases Nat.eq_zero_or_pos n with rfl | hn
  · exact digitText_zero
  · exact absurd hz (head_digitText_ne_zero hn)

theorem readWhole_append {ds s : List Char} (hd : WholeDigits ds) (hs : NoDigit s) :
    readWhole (ds ++ s) = .ok (ds, s) := by
  obtain ⟨c, more, rfl⟩ := List.exists_cons_of_ne_nil hd.ne_nil
  have hc : c.isDigit = true := hd.digits c List.mem_cons_self
  have hmore : AllDigits more := fun d hm => hd.digits d (List.mem_cons_of_mem _ hm)
  obtain ⟨ht, hdr⟩ := takeWhile_digits hmore hs
  by_cases hz : c = '0'
  · subst hz
    obtain rfl : more = [] := by simpa using hd.zero_alone rfl
    have hh : ((s.head?).map Char.isDigit).getD false = false := by
      cases s with
      | nil => rfl
      | cons d s => simpa using hs d rfl
    simp [readWhole, hh]
  · simp [readWhole, hc, ht, hdr]

/-- The point and the digits after it. -/
def fractionText : List Char → List Char
  | [] => []
  | d :: ds => '.' :: d :: ds

/-- A text that goes on with neither a point nor a digit. -/
def EndsFraction (s : List Char) : Prop :=
  NoDigit s ∧ s.head? ≠ some '.'

theorem readFraction_append {ds s : List Char} (hd : AllDigits ds) (hs : EndsFraction s) :
    readFraction (fractionText ds ++ s) = .ok (ds, s) := by
  cases ds with
  | nil =>
    cases s with
    | nil => rfl
    | cons c s =>
      have hc : c ≠ '.' := by simpa using hs.2
      simp [fractionText, readFraction, hc]
  | cons d ds =>
    obtain ⟨ht, hdr⟩ := takeWhile_digits hd hs.1
    simp only [fractionText, List.cons_append, readFraction]
    rw [← List.cons_append, ht, hdr]
    rfl

/-- The exponent, which always has a sign. -/
def powerText : Option Int → List Char
  | none => []
  | some e => 'e' :: (if e < 0 then '-' else '+') :: digitText e.natAbs

theorem readPowerDigits_append (n : Nat) {s : List Char} (hs : NoDigit s) :
    readPowerDigits (digitText n ++ s) = .ok (n, s) := by
  obtain ⟨ht, hdr⟩ := takeWhile_digits (allDigits_digitText n) hs
  have hne : (digitText n).isEmpty = false := by simp [digitText_ne_nil]
  simp only [readPowerDigits, ht, hdr, hne, digitsValue_digitText, Bool.false_eq_true, if_false]

theorem readPower_append (power : Option Int) {s : List Char} (hs : Delimited s) :
    readPower (powerText power ++ s) = .ok (power.getD 0, s) := by
  cases power with
  | none =>
    cases s with
    | nil => rfl
    | cons c s => rcases hs with rfl | rfl | rfl <;> rfl
  | some e =>
    have hdigits := readPowerDigits_append e.natAbs hs.noDigit
    by_cases he : e < 0
    · have hneg : -(e.natAbs : Int) = e := by omega
      simp only [powerText, readPower, readSignedPower, he, if_true, List.cons_append,
        hdigits, hneg, bind, Except.bind, Option.getD_some]
    · have hpos : (e.natAbs : Int) = e := by omega
      simp only [powerText, readPower, readSignedPower, he, if_false, List.cons_append,
        hdigits, hpos, bind, Except.bind, Option.getD_some]

theorem startsPower_append (power : Option Int) {s : List Char} (hs : Delimited s) :
    startsPower (powerText power ++ s) = power.isSome := by
  cases power with
  | none =>
    cases s with
    | nil => rfl
    | cons c s => rcases hs with rfl | rfl | rfl <;> rfl
  | some e => rfl

theorem endsFraction_powerText (power : Option Int) {s : List Char} (hs : Delimited s) :
    EndsFraction (powerText power ++ s) := by
  cases power with
  | none =>
    refine ⟨hs.noDigit, ?_⟩
    cases s with
    | nil => simp [powerText]
    | cons c s => rcases hs with rfl | rfl | rfl <;> simp [powerText]
  | some e => exact ⟨by simp [NoDigit, powerText], by simp [powerText]⟩

/-! ## Numerals -/

/-- The parts of a printed number without its sign. -/
structure Numeral where
  whole : List Char
  fraction : List Char
  power : Option Int

namespace Numeral

def text (n : Numeral) : List Char :=
  n.whole ++ fractionText n.fraction ++ powerText n.power

structure WellFormed (n : Numeral) : Prop where
  whole : WholeDigits n.whole
  fraction : AllDigits n.fraction

def token (n : Numeral) (negative : Bool) : NumberToken where
  negative := negative
  whole := n.whole
  fraction := n.fraction
  power := n.power.getD 0
  plain := n.fraction.isEmpty && n.power.isNone

theorem noDigit_rest {n : Numeral} {s : List Char} (hs : Delimited s) :
    NoDigit (fractionText n.fraction ++ (powerText n.power ++ s)) := by
  cases hf : n.fraction with
  | nil => exact (endsFraction_powerText n.power hs).1
  | cons d ds => simp [NoDigit, fractionText]

/-- A numeral is read as its token, up to what delimits it. -/
theorem readNumber_text {n : Numeral} (h : n.WellFormed) (negative : Bool) {s : List Char}
    (hs : Delimited s) :
    readNumber negative (n.text ++ s) =
      (n.token negative).value.map fun m => (number m, s) := by
  have hwhole := readWhole_append h.whole (noDigit_rest (n := n) hs)
  have hfraction := readFraction_append h.fraction (endsFraction_powerText n.power hs)
  have hpower := readPower_append n.power hs
  have hstart := startsPower_append n.power hs
  have hplain : (n.fraction.isEmpty && !n.power.isSome) =
      (n.fraction.isEmpty && n.power.isNone) := by
    cases n.power <;> rfl
  simp only [readNumber, text, List.append_assoc, hwhole, hfraction, hpower, hstart, bind,
    Except.bind, hplain, token]
  cases NumberToken.value _ <;> rfl

end Numeral
end AgentPrompt.Json
