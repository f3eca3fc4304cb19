import AgentPrompt.Yaml.Fault

/-! The characters of a YAML text, and a position in it. Line breaks are brought to one form first:
a carriage return, with or without a line feed, and the next-line character count as a line feed,
while the line and paragraph separators stay what they are. -/
namespace AgentPrompt.Yaml

/-- The characters that a text may hold. -/
def isAllowed (c : Char) : Bool :=
  let n := c.toNat
  n == 0x09 || n == 0x0A || n == 0x0D || (0x20 ≤ n && n ≤ 0x7E) || n == 0x85 ||
    (0xA0 ≤ n && n ≤ 0xD7FF) || (0xE000 ≤ n && n ≤ 0xFFFD) || 0x10000 ≤ n

def byteOrderMark : Char := '\ufeff'

def lineSeparator : Char := '\u2028'

def paragraphSeparator : Char := '\u2029'

/-- Whether a character ends a line once line breaks have one form. -/
def isBreak (c : Char) : Bool :=
  c == '\n' || c == lineSeparator || c == paragraphSeparator

def isBlank (c : Char) : Bool :=
  c == ' ' || c == '\t'

/-- Brings line breaks to one form. -/
def unifyBreaks : List Char → List Char
  | [] => []
  | '\r' :: '\n' :: rest => '\n' :: unifyBreaks rest
  | c :: rest => (if c = '\r' ∨ c = '\u0085' then '\n' else c) :: unifyBreaks rest

/-- The text as it is scanned. -/
def source (s : List Char) : Except Fault (List Char) :=
  if s.all isAllowed then .ok (unifyBreaks s) else .error .controlCharacter

/-- A place in a text: the line, the column in it, and how many octets stand before it. -/
structure Place where
  line : Nat := 0
  column : Nat := 0
  offset : Nat := 0
  deriving DecidableEq, Repr

namespace Place

/-- The place behind a character. -/
def after (p : Place) (c : Char) : Place :=
  let offset := p.offset + c.utf8Size
  if isBreak c then { line := p.line + 1, offset } else { p with column := p.column + 1, offset }

def afterAll (p : Place) (s : List Char) : Place :=
  s.foldl after p

end Place

/-- The rest of a text with the place where it starts. -/
structure Cursor extends Place where
  rest : List Char
  deriving Repr

namespace Cursor

/-- Passes a number of characters. -/
def skip (c : Cursor) (n : Nat) : Cursor :=
  { toPlace := c.afterAll (c.rest.take n), rest := c.rest.drop n }

/-- Passes one character. -/
def next (c : Cursor) : Cursor :=
  c.skip 1

/-- Splits off the characters for as long as they satisfy `p`. -/
def span (c : Cursor) (p : Char → Bool) : List Char × Cursor :=
  let taken := c.rest.takeWhile p
  (taken, c.skip taken.length)

def dropWhile (c : Cursor) (p : Char → Bool) : Cursor :=
  (c.span p).2

/-- Passes the rest of the line, its break left out. -/
def dropLine (c : Cursor) : Cursor :=
  c.dropWhile fun x => !isBreak x

def head? (c : Cursor) : Option Char :=
  c.rest.head?

end Cursor

/-- Whether a text ends here or goes on with a blank or a break. -/
def startsBlank : List Char → Bool
  | [] => true
  | c :: _ => isBlank c || isBreak c

def startsBreak : List Char → Bool
  | [] => true
  | c :: _ => isBreak c

/-- Whether a line starts with a marker of three equal characters that stands alone. -/
def startsMarker (mark : Char) : List Char → Bool
  | a :: b :: c :: rest => a == mark && b == mark && c == mark && startsBlank rest
  | _ => false

def startsDocumentMarker (s : List Char) : Bool :=
  startsMarker '-' s || startsMarker '.' s

end AgentPrompt.Yaml
