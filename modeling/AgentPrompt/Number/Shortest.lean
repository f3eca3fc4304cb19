import AgentPrompt.Number.Binary64

/-! The shortest decimal that reads back as a given number, and of those the nearest to it. -/
namespace AgentPrompt

/-- The number `digits * 10 ^ exponent`. -/
structure Decimal where
  digits : Nat
  exponent : Int
  deriving DecidableEq, Repr

namespace Decimal

/-- The decimal digits of a number, most significant first. -/
def digitText (n : Nat) : List Char :=
  Nat.toDigits 10 n

/-- The exponent of the first digit. -/
def leadingExponent (d : Decimal) : Int :=
  d.exponent + (digitText d.digits).length - 1

/-- Drops zeros at the end; `fuel` bounds their number. -/
def stripZeros : Nat → Decimal → Decimal
  | 0, d => d
  | fuel + 1, d =>
    if d.digits ≠ 0 ∧ d.digits % 10 = 0 then stripZeros fuel ⟨d.digits / 10, d.exponent + 1⟩ else d

end Decimal

namespace Binary64

/-- The exponent `e` with `10 ^ e ≤ num / den < 10 ^ (e + 1)`, for positive arguments. -/
def floorLog10 (num den : Nat) : Int :=
  if den ≤ num then ((Decimal.digitText (num / den)).length : Int) - 1
  else
    let k := (Decimal.digitText (den / num)).length
    if num * Nat.pow 10 (k - 1) = den then 1 - (k : Int) else -(k : Int)

/-- A positive number with the ends of the interval that rounds to it, all three over one
denominator. -/
structure Interval where
  low : Nat
  value : Nat
  high : Nat
  den : Nat
  /-- Whether the ends themselves round to the number. -/
  closed : Bool

def interval (x : Binary64) : Interval :=
  let scale := Nat.pow 2 x.exponent.toNat
  let below := if x.significand = Nat.pow 2 52 ∧ minExponent < x.exponent then 1 else 2
  { low := (4 * x.significand - below) * scale
    value := 4 * x.significand * scale
    high := (4 * x.significand + 2) * scale
    den := 4 * x.denominator
    closed := x.significand % 2 = 0 }

/-- Whether `digits * 10 ^ exponent` reads back as the number. -/
def Interval.holds (i : Interval) (digits : Nat) (exponent : Int) : Bool :=
  let n := digits * Nat.pow 10 exponent.toNat * i.den
  let scale := Nat.pow 10 (-exponent).toNat
  if i.closed then i.low * scale ≤ n && n ≤ i.high * scale
  else i.low * scale < n && n < i.high * scale

/-- The neighbour of the number on the grid of multiples of `10 ^ exponent` that reads back. Of two
the nearer is taken, and of two equally near the even one. -/
def Interval.onGrid? (i : Interval) (exponent : Int) : Option Nat :=
  let num := i.value * Nat.pow 10 (-exponent).toNat
  let den := i.den * Nat.pow 10 exponent.toNat
  let below := num / den
  match i.holds below exponent, i.holds (below + 1) exponent with
  | true, true => some (roundQuotient num den)
  | true, false => some below
  | false, true => some (below + 1)
  | false, false => none

/-- Tries grids with more and more digits; seventeen digits always suffice. -/
def Interval.shortestFrom (i : Interval) (exponent : Int) : Nat → Decimal
  | 0 => ⟨i.value / i.den, 0⟩
  | fuel + 1 =>
    match i.onGrid? exponent with
    | some digits => ⟨digits, exponent⟩
    | none => i.shortestFrom (exponent - 1) fuel

/-- The shortest decimal for the magnitude. -/
def shortest (x : Binary64) : Decimal :=
  if x.isZero then ⟨0, 0⟩
  else
    let leading := floorLog10 x.numerator x.denominator
    Decimal.stripZeros 17 (x.interval.shortestFrom leading 17)

end Binary64
end AgentPrompt
