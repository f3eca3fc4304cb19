import AgentPrompt.Json.Basic
import AgentPrompt.Number.Shortest

/-! Compact JSON text. Members are printed in the order of their list, strings escape only what
must be escaped, and a floating-point number has the fewest digits that read back. -/
namespace AgentPrompt
namespace Json

/-- Exponents of the first digit for which a number is written without an exponent. -/
def positionalLow : Int := -5

def positionalHigh : Int := 16

/-- Digits with a point after the first `whole` of them; at least one digit stands on each side. -/
def positional (digits : List Char) (whole : Int) : List Char :=
  if whole ≤ 0 then '0' :: '.' :: (List.replicate (-whole).toNat '0' ++ digits)
  else
    let n := whole.toNat
    let front := digits.take n ++ List.replicate (n - digits.length) '0'
    let back := digits.drop n
    front ++ '.' :: (if back.isEmpty then ['0'] else back)

def scientific (digits : List Char) (exponent : Int) : List Char :=
  let mantissa := match digits with
    | [] => []
    | [d] => [d]
    | d :: more => d :: '.' :: more
  let sign := if exponent < 0 then '-' else '+'
  mantissa ++ 'e' :: sign :: Decimal.digitText exponent.natAbs

def magnitudeText (x : Binary64) : List Char :=
  if x.isZero then ['0', '.', '0']
  else
    let d := x.shortest
    let digits := Decimal.digitText d.digits
    let e := d.leadingExponent
    if positionalLow ≤ e ∧ e < positionalHigh then positional digits (e + 1)
    else scientific digits e

def intText (n : Int) : List Char :=
  if n < 0 then '-' :: Decimal.digitText n.natAbs else Decimal.digitText n.natAbs

def Number.text : Number → List Char
  | .int n => intText n
  | .float x => if x.negative then '-' :: magnitudeText x else magnitudeText x

def hexDigit (n : Nat) : Char :=
  if n < 10 then Char.ofNat (48 + n) else Char.ofNat (87 + n)

/-- A character inside a string literal. -/
def escape (c : Char) : List Char :=
  if c = '"' then ['\\', '"']
  else if c = '\\' then ['\\', '\\']
  else if c.toNat < 0x20 then
    match c.toNat with
    | 8 => ['\\', 'b']
    | 9 => ['\\', 't']
    | 10 => ['\\', 'n']
    | 12 => ['\\', 'f']
    | 13 => ['\\', 'r']
    | n => ['\\', 'u', '0', '0', hexDigit (n / 16), hexDigit (n % 16)]
  else [c]

def quoted (s : List Char) : List Char :=
  '"' :: s.flatMap escape ++ ['"']

mutual
/-- The compact text of a value. -/
def chars : Json → List Char
  | null => ['n', 'u', 'l', 'l']
  | bool true => ['t', 'r', 'u', 'e']
  | bool false => ['f', 'a', 'l', 's', 'e']
  | number n => n.text
  | string s => quoted s.toList
  | array items => '[' :: itemsText items ++ [']']
  | object members => '\x7b' :: membersText members ++ ['\x7d']

/-- Values with commas between them. -/
def itemsText : List Json → List Char
  | [] => []
  | [v] => chars v
  | v :: w :: rest => chars v ++ ',' :: itemsText (w :: rest)

def membersText : List (String × Json) → List Char
  | [] => []
  | [(k, v)] => quoted k.toList ++ ':' :: chars v
  | (k, v) :: m :: rest => quoted k.toList ++ ':' :: chars v ++ ',' :: membersText (m :: rest)
end

def print (v : Json) : String :=
  String.ofList (chars v)

end Json
end AgentPrompt
