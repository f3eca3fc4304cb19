/-! Finite floating-point numbers of 64 bits, with exact rounding to the nearest one.
Ties go to the even significand; what lies beyond the largest finite number has no rounding. -/
namespace AgentPrompt

/-- The number `± significand * 2 ^ exponent`. Both zeros have significand 0. -/
structure Binary64 where
  negative : Bool
  significand : Nat
  exponent : Int
  deriving DecidableEq, Repr

namespace Binary64

/-- Every significand is below this. -/
def significandLimit : Nat := Nat.pow 2 53

def minExponent : Int := -1074

def maxExponent : Int := 971

def zero : Binary64 := ⟨false, 0, minExponent⟩

def neg (x : Binary64) : Binary64 :=
  { x with negative := !x.negative }

def isZero (x : Binary64) : Bool :=
  x.significand == 0

/-- The whole number nearest to `num / den`; a half goes to the even neighbour. -/
def roundQuotient (num den : Nat) : Nat :=
  let q := num / den
  let r := num % den
  if 2 * r < den then q else if den < 2 * r then q + 1 else if q % 2 = 0 then q else q + 1

/-- The exponent `e` with `2 ^ e ≤ num / den < 2 ^ (e + 1)`, for positive arguments. -/
def floorLog2 (num den : Nat) : Int :=
  let e : Int := (num.log2 : Int) - den.log2
  if den * Nat.pow 2 e.toNat ≤ num * Nat.pow 2 (-e).toNat then e else e - 1

/-- The nonnegative number nearest to `num / den`, or nothing if that is not finite. -/
def ofRatio? (num den : Nat) : Option Binary64 :=
  if num = 0 then some zero
  else
    let q := max (floorLog2 num den - 52) minExponent
    let m := roundQuotient (num * Nat.pow 2 (-q).toNat) (den * Nat.pow 2 q.toNat)
    let (m, q) := if m = significandLimit then (Nat.pow 2 52, q + 1) else (m, q)
    if maxExponent < q then none else some ⟨false, m, q⟩

/-- The magnitude as a fraction. -/
def numerator (x : Binary64) : Nat :=
  x.significand * Nat.pow 2 x.exponent.toNat

def denominator (x : Binary64) : Nat :=
  Nat.pow 2 (-x.exponent).toNat

private def withSign (negative : Bool) : Option Binary64 → Option Binary64 :=
  Option.map fun x => { x with negative }

/-- The number nearest to a whole number. -/
def ofNat? (n : Nat) : Option Binary64 :=
  ofRatio? n 1

def mul? (x y : Binary64) : Option Binary64 :=
  withSign (x.negative != y.negative) <|
    ofRatio? (x.numerator * y.numerator) (x.denominator * y.denominator)

/-- The rounded quotient; `y` is not zero. -/
def div? (x y : Binary64) : Option Binary64 :=
  withSign (x.negative != y.negative) <|
    ofRatio? (x.numerator * y.denominator) (x.denominator * y.numerator)

/-- Scales by a power of ten, with one rounding for the power and one for the product. -/
def scaleUp? (x : Binary64) (power : Nat) : Option Binary64 :=
  (ofNat? (Nat.pow 10 power)).bind x.mul?

/-- Divides by a power of ten. Powers beyond the range of the numbers are taken off in steps of
the largest power in range, each with its own rounding. -/
def scaleDown? (x : Binary64) (power : Nat) : Option Binary64 :=
  if power ≤ 308 then (ofNat? (Nat.pow 10 power)).bind x.div?
  else if x.isZero then some x
  else ((ofNat? (Nat.pow 10 308)).bind x.div?).bind fun y => y.scaleDown? (power - 308)
termination_by power

/-- The number for `significand * 10 ^ power`, read with one scaling step where the power of ten is
itself in range. -/
def ofDecimal? (significand : Nat) (power : Int) : Option Binary64 :=
  (ofNat? significand).bind fun x =>
    if power < 0 then x.scaleDown? (-power).toNat
    else if power ≤ 308 then x.scaleUp? power.toNat
    else if x.isZero then some x
    else none

end Binary64
end AgentPrompt
