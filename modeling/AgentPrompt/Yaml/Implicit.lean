import AgentPrompt.Yaml.Decode
import AgentPrompt.Number.Binary64

/-! Plain texts that stand for something else than a text: null, booleans and numbers. -/
namespace AgentPrompt.Yaml

/-- Without one sign in front. -/
def dropSign (signs s : List Char) : List Char :=
  match s with
  | c :: rest => if signs.contains c then rest else s
  | [] => []

/-- Digits with a needless zero in front are no number. -/
def isZeroLed (s : List Char) : Bool :=
  match dropSign ['-', '+'] s with
  | '0' :: d :: rest => (d :: rest).all Char.isDigit
  | _ => false

def digitIn? (base : Nat) (c : Char) : Option Nat :=
  (hexDigit? c).bind fun n => if n < base then some n else none

/-- The number that digits of a base stand for; there must be one. -/
def numberIn? (base : Nat) (digits : List Char) : Option Nat :=
  if digits.isEmpty then none
  else digits.foldlM (fun n d => (digitIn? base d).map (n * base + ·)) 0

/-- The digits of a number with its base, which a letter after a zero names. -/
def basedDigits? : List Char → Option (Nat × List Char)
  | '0' :: 'x' :: digits => some (16, digits)
  | '0' :: 'o' :: digits => some (8, digits)
  | '0' :: 'b' :: digits => some (2, digits)
  | _ => none

/-- Whether digits of some base, ten if none is named, make a number up to a limit. -/
def isIntegerTo (limit : Nat) (s : List Char) : Bool :=
  let fits (base : Nat) (digits : List Char) : Bool :=
    ((numberIn? base digits).map fun n => decide (n ≤ limit)).getD false
  match basedDigits? s with
  | some (base, digits) => fits base digits
  | none => fits 10 s

/-- Integers have 128 bits, signed or unsigned. -/
def isInteger (s : List Char) : Bool :=
  !isZeroLed s &&
    match s with
    | '-' :: rest => isIntegerTo (Nat.pow 2 127) rest
    | s => isIntegerTo (Nat.pow 2 128 - 1) (dropSign ['+'] s)

/-- The parts of a number in positional or scientific notation: the digits before and after the
point, and the power of ten. -/
def decimalParts? (s : List Char) : Option (List Char × List Char × Int) :=
  let whole := s.takeWhile Char.isDigit
  let s := s.dropWhile Char.isDigit
  let (fraction, s) := match s with
    | '.' :: rest => (rest.takeWhile Char.isDigit, rest.dropWhile Char.isDigit)
    | s => ([], s)
  if whole.isEmpty && fraction.isEmpty then none
  else
    match s with
    | [] => some (whole, fraction, 0)
    | e :: rest =>
      if e == 'e' || e == 'E' then
        let digits := dropSign ['+', '-'] rest
        (numberIn? 10 digits).map fun n =>
          (whole, fraction, if rest.head? = some '-' then -(n : Int) else n)
      else none

/-- Whether a number in positional or scientific notation lies in the range of floating point. Its
first digit decides, unless it stands where that of the largest number does. -/
def isFinite (parts : List Char × List Char × Int) : Bool :=
  let (whole, fraction, power) := parts
  let digits := (whole ++ fraction).dropWhile (· == '0')
  let scale := power - fraction.length
  let leading := scale + digits.length
  match numberIn? 10 digits with
  | none => true
  | some n =>
    leading ≤ 308 || (leading = 309 &&
      (Binary64.ofRatio? (n * Nat.pow 10 scale.toNat) (Nat.pow 10 (-scale).toNat)).isSome)

/-- The spellings of infinity and of no number. -/
def specialNumbers : List String :=
  [".inf", ".Inf", ".INF", "+.inf", "+.Inf", "+.INF", "-.inf", "-.Inf", "-.INF", ".nan", ".NaN",
    ".NAN"]

def isFloat (s : List Char) : Bool :=
  specialNumbers.any (fun t => t.toList == s) ||
    (!isZeroLed s && ((decimalParts? (dropSign ['+', '-'] s)).map isFinite).getD false)

/-- Whether a text would not be read as a text if it were plain. -/
def isAmbiguous (s : List Char) : Bool :=
  s.isEmpty || Document.isNullText s || (Document.flag? s).isSome || isZeroLed s || isInteger s ||
    isFloat s

end AgentPrompt.Yaml
