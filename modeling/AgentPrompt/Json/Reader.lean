import AgentPrompt.Json.Basic

/-! Reading JSON text. A number becomes a whole number where it fits 64 bits; any other number is
built from a significand of 64 bits and one scaling by a power of ten. Members of an object are
sorted by key and the last value of a key wins. Nesting is limited. -/
namespace AgentPrompt
namespace Json

/-- Why a text is no JSON value. -/
inductive Fault where
  | endOfText
  | unexpected (c : Char)
  | controlCharacter
  | badEscape
  | loneSurrogate
  | badNumber
  | numberOutOfRange
  | tooDeep
  | trailing (c : Char)
  deriving DecidableEq, Repr

def Fault.message : Fault → String
  | .endOfText => "the text ends inside a value"
  | .unexpected c => "unexpected character '" ++ c.toString ++ "'"
  | .controlCharacter => "control character inside a string"
  | .badEscape => "invalid escape inside a string"
  | .loneSurrogate => "half of a surrogate pair inside a string"
  | .badNumber => "invalid number"
  | .numberOutOfRange => "number out of range"
  | .tooDeep => "values are nested too deeply"
  | .trailing c => "unexpected character '" ++ c.toString ++ "' after the value"

/-- Arrays and objects may stand this deep inside each other. -/
def nestingLimit : Nat := 127

def isSpace (c : Char) : Bool :=
  c == ' ' || c == '\t' || c == '\n' || c == '\r'

def skipSpace (s : List Char) : List Char :=
  s.dropWhile isSpace

def digitValue (c : Char) : Nat :=
  c.toNat - 48

def digitsValue (ds : List Char) : Nat :=
  ds.foldl (fun n d => n * 10 + digitValue d) 0

/-- Takes digits into a significand for as long as it fits 64 bits, and returns those left over. -/
def gather (significand : Nat) : List Char → Nat × List Char
  | [] => (significand, [])
  | d :: rest =>
    let next := significand * 10 + digitValue d
    if next < Nat.pow 2 64 then gather next rest else (significand, d :: rest)

/-- The parts of a number token: digits before the point, digits after it, and the power of ten. -/
structure NumberToken where
  negative : Bool
  whole : List Char
  fraction : List Char
  power : Int
  /-- Neither point nor exponent was written. -/
  plain : Bool

/-- The value of a token. Digits that no longer fit the significand only count for the scale when
they stand before the point, and are ignored after it. -/
def NumberToken.value (t : NumberToken) : Except Fault Number :=
  let (high, overflow) := gather 0 t.whole
  let (significand, ignored) := gather high t.fraction
  let float (scale : Int) : Except Fault Number :=
    match Binary64.ofDecimal? significand scale with
    | some x => .ok (.float (if t.negative then x.neg else x))
    | none => .error .numberOutOfRange
  if t.plain && overflow.isEmpty then
    if !t.negative then .ok (.int significand)
    else if 0 < significand ∧ significand ≤ Nat.pow 2 63 then .ok (.int (-significand))
    else float 0
  else
    float (overflow.length - (t.fraction.length - ignored.length : Nat) + t.power)

/-- The digits before the point: a zero stands alone. -/
def readWhole : List Char → Except Fault (List Char × List Char)
  | [] => .error .endOfText
  | '0' :: rest =>
    if (rest.head?.map Char.isDigit).getD false then .error .badNumber else .ok (['0'], rest)
  | c :: rest =>
    if c.isDigit then .ok (c :: rest.takeWhile Char.isDigit, rest.dropWhile Char.isDigit)
    else .error .badNumber

def readFraction : List Char → Except Fault (List Char × List Char)
  | '.' :: rest =>
    let ds := rest.takeWhile Char.isDigit
    if ds.isEmpty then .error .badNumber else .ok (ds, rest.dropWhile Char.isDigit)
  | s => .ok ([], s)

/-- The digits of an exponent, of which there must be one. -/
def readPowerDigits (s : List Char) : Except Fault (Nat × List Char) :=
  let ds := s.takeWhile Char.isDigit
  if ds.isEmpty then .error .badNumber else .ok (digitsValue ds, s.dropWhile Char.isDigit)

def readSignedPower : List Char → Except Fault (Int × List Char)
  | '-' :: rest => do let (n, rest) ← readPowerDigits rest; .ok (-(n : Int), rest)
  | '+' :: rest => do let (n, rest) ← readPowerDigits rest; .ok (n, rest)
  | rest => do let (n, rest) ← readPowerDigits rest; .ok (n, rest)

def readPower : List Char → Except Fault (Int × List Char)
  | 'e' :: rest => readSignedPower rest
  | 'E' :: rest => readSignedPower rest
  | s => .ok (0, s)

def startsPower : List Char → Bool
  | 'e' :: _ => true
  | 'E' :: _ => true
  | _ => false

/-- Reads a number token after its sign. -/
def readNumber (negative : Bool) (s : List Char) : Except Fault (Json × List Char) := do
  let (whole, s) ← readWhole s
  let (fraction, s) ← readFraction s
  let plain := fraction.isEmpty && !startsPower s
  let (power, s) ← readPower s
  let n ← NumberToken.value { negative, whole, fraction, power, plain }
  .ok (number n, s)

def hexValue? (c : Char) : Option Nat :=
  if c.isDigit then some (c.toNat - 48)
  else if 'a' ≤ c ∧ c ≤ 'f' then some (c.toNat - 87)
  else if 'A' ≤ c ∧ c ≤ 'F' then some (c.toNat - 55)
  else none

def hex4? (a b c d : Char) : Option Nat := do
  return (((← hexValue? a) * 16 + (← hexValue? b)) * 16 + (← hexValue? c)) * 16 + (← hexValue? d)

def simpleEscape? : Char → Option Char
  | '"' => some '"'
  | '\\' => some '\\'
  | '/' => some '/'
  | 'b' => some '\x08'
  | 'f' => some '\x0c'
  | 'n' => some '\n'
  | 'r' => some '\r'
  | 't' => some '\t'
  | _ => none

def isHighSurrogate (n : Nat) : Bool :=
  0xD800 ≤ n && n < 0xDC00

def isLowSurrogate (n : Nat) : Bool :=
  0xDC00 ≤ n && n < 0xE000

/-- Reads a string after its opening quote; `text` is what was read, last character first. -/
def readString (text : List Char) : List Char → Except Fault (String × List Char)
  | [] => .error .endOfText
  | '"' :: rest => .ok (String.ofList text.reverse, rest)
  | '\\' :: 'u' :: a :: b :: c :: d :: rest =>
    match hex4? a b c d with
    | none => .error .badEscape
    | some n =>
      if isLowSurrogate n then .error .loneSurrogate
      else if isHighSurrogate n then
        match rest with
        | '\\' :: 'u' :: a' :: b' :: c' :: d' :: rest' =>
          match hex4? a' b' c' d' with
          | none => .error .badEscape
          | some m =>
            if isLowSurrogate m then
              readString (Char.ofNat (0x10000 + (n - 0xD800) * 0x400 + (m - 0xDC00)) :: text) rest'
            else .error .loneSurrogate
        | _ => .error .loneSurrogate
      else readString (Char.ofNat n :: text) rest
  | '\\' :: c :: rest =>
    match simpleEscape? c with
    | some e => readString (e :: text) rest
    | none => .error .badEscape
  | ['\\'] => .error .endOfText
  | c :: rest => if c.toNat < 0x20 then .error .controlCharacter else readString (c :: text) rest

/-- The rest of the text after a word that must stand at its start. -/
def readWord (word : List Char) (value : Json) (s : List Char) : Except Fault (Json × List Char) :=
  if word.isPrefixOf s then .ok (value, s.drop word.length)
  else match s.drop 1 with
    | [] => .error .endOfText
    | c :: _ => .error (.unexpected c)

mutual
/-- Reads a value and returns the text after it. `depth` is how deep arrays and objects may still
nest, and `fuel` bounds the number of steps. -/
def readValue : Nat → Nat → List Char → Except Fault (Json × List Char)
  | 0, _, _ => .error .endOfText
  | fuel + 1, depth, s =>
    match skipSpace s with
    | [] => .error .endOfText
    | 'n' :: rest => readWord ['n', 'u', 'l', 'l'] null ('n' :: rest)
    | 't' :: rest => readWord ['t', 'r', 'u', 'e'] (bool true) ('t' :: rest)
    | 'f' :: rest => readWord ['f', 'a', 'l', 's', 'e'] (bool false) ('f' :: rest)
    | '"' :: rest => do
      let (text, rest) ← readString [] rest
      .ok (string text, rest)
    | '-' :: rest => readNumber true rest
    | '[' :: rest =>
      match depth with
      | 0 => .error .tooDeep
      | depth + 1 =>
        match skipSpace rest with
        | ']' :: rest => .ok (array [], rest)
        | rest => do
          let (items, rest) ← readItems fuel depth rest
          .ok (array items, rest)
    | '\x7b' :: rest =>
      match depth with
      | 0 => .error .tooDeep
      | depth + 1 =>
        match skipSpace rest with
        | '\x7d' :: rest => .ok (object [], rest)
        | rest => do
          let (members, rest) ← readMembers fuel depth [] rest
          .ok (object members, rest)
    | c :: rest => if c.isDigit then readNumber false (c :: rest) else .error (.unexpected c)

/-- Reads the items of an array up to its closing bracket. -/
def readItems : Nat → Nat → List Char → Except Fault (List Json × List Char)
  | 0, _, _ => .error .endOfText
  | fuel + 1, depth, s => do
    let (item, rest) ← readValue fuel depth s
    match skipSpace rest with
    | ']' :: rest => .ok ([item], rest)
    | ',' :: rest =>
      let (items, rest) ← readItems fuel depth rest
      .ok (item :: items, rest)
    | [] => .error .endOfText
    | c :: _ => .error (.unexpected c)

/-- Reads members up to the closing brace and adds them to those read before. -/
def readMembers : Nat → Nat → List (String × Json) → List Char →
    Except Fault (List (String × Json) × List Char)
  | 0, _, _, _ => .error .endOfText
  | fuel + 1, depth, members, s =>
    match skipSpace s with
    | '"' :: rest => do
      let (key, rest) ← readString [] rest
      match skipSpace rest with
      | ':' :: rest =>
        let (value, rest) ← readValue fuel depth rest
        let members := insertMember key value members
        match skipSpace rest with
        | '\x7d' :: rest => .ok (members, rest)
        | ',' :: rest => readMembers fuel depth members rest
        | [] => .error .endOfText
        | c :: _ => .error (.unexpected c)
      | [] => .error .endOfText
      | c :: _ => .error (.unexpected c)
    | [] => .error .endOfText
    | c :: _ => .error (.unexpected c)
end

/-- Reads a text that holds one value and nothing else but spaces. -/
def readText (s : List Char) : Except Fault Json := do
  let (value, rest) ← readValue (2 * s.length + 2) nestingLimit s
  match skipSpace rest with
  | [] => .ok value
  | c :: _ => .error (.trailing c)

def parse (s : String) : Except Fault Json :=
  readText s.toList

end Json
end AgentPrompt
