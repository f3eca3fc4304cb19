import AgentPrompt.Yaml.Implicit

/-! Writing texts as YAML scalars. A text is plain where that reads back as the same text, a block
of lines where it has several, and quoted otherwise. -/
namespace AgentPrompt.Yaml

/-- Characters written as they are. -/
def isWritable (c : Char) : Bool :=
  let n := c.toNat
  n == 0x0A || (0x20 ≤ n && n ≤ 0x7E) || (0xA0 ≤ n && n ≤ 0xD7FF) ||
    (0xE000 ≤ n && n ≤ 0xFFFD && n != 0xFEFF) || 0x10000 ≤ n

/-- Line breaks in any of their forms. -/
def isAnyBreak (c : Char) : Bool :=
  isBreak c || c == '\r' || c == '\u0085'

def isAnySpace (c : Char) : Bool :=
  isBlank c || isAnyBreak c

/-- Whether a text ends here or goes on with white space. -/
def startsSpace (s : List Char) : Bool :=
  (s.head?.map isAnySpace).getD true

/-- Whether neighbours in the text satisfy `p` and `q`. -/
def hasPair (p q : Char → Bool) : List Char → Bool
  | a :: b :: rest => (p a && q b) || hasPair p q (b :: rest)
  | _ => false

/-- Whether a colon before white space or a comment mark after it stands behind the first
character. -/
def hasInnerIndicator : List Char → Bool
  | a :: b :: rest =>
    (b == ':' && startsSpace rest) || (b == '#' && isAnySpace a) || hasInnerIndicator (b :: rest)
  | _ => false

/-- Whether the first character would start something else than a plain scalar. -/
def hasFirstIndicator : List Char → Bool
  | [] => false
  | c :: rest =>
    "#,[]\x7b\x7d&*!|>'\"%@`".toList.contains c ||
      ((c == '?' || c == ':' || c == '-') && startsSpace rest)

def hasMarker (s : List Char) : Bool :=
  "---".toList.isPrefixOf s || "...".toList.isPrefixOf s

/-- What decides in which styles a text can be written. -/
structure Shape where
  indicators : Bool
  breaks : Bool
  special : Bool
  edgeSpace : Bool
  edgeBreak : Bool
  finalSpace : Bool
  spaceAfterBreak : Bool
  spaceBeforeBreak : Bool

def isSpaceChar (c : Char) : Bool :=
  c == ' '

def shape (s : List Char) : Shape where
  indicators := hasMarker s || hasFirstIndicator s || hasInnerIndicator s
  breaks := s.any isAnyBreak
  special := s.any fun c => !isWritable c
  edgeSpace := s.head? = some ' ' || s.getLast? = some ' '
  edgeBreak := (s.head?.map isAnyBreak).getD false || (s.getLast?.map isAnyBreak).getD false
  finalSpace := s.getLast? = some ' '
  spaceAfterBreak := hasPair isAnyBreak isSpaceChar s
  spaceBeforeBreak := hasPair isSpaceChar isAnyBreak s

namespace Shape

def plainAllowed (h : Shape) : Bool :=
  !(h.indicators || h.breaks || h.special || h.edgeSpace || h.edgeBreak || h.spaceAfterBreak ||
    h.spaceBeforeBreak)

def singleAllowed (h : Shape) : Bool :=
  !(h.special || h.spaceAfterBreak || h.spaceBeforeBreak)

def blockAllowed (h : Shape) : Bool :=
  !(h.special || h.finalSpace || h.spaceBeforeBreak)

end Shape

/-- The style in which a text is written. -/
def styleOf (s : List Char) : Style :=
  let h := shape s
  let quoted := if h.singleAllowed then Style.singleQuoted else .doubleQuoted
  if s.contains '\n' then if h.blockAllowed then .literal else .doubleQuoted
  else if isAmbiguous s then quoted
  else if h.plainAllowed then .plain
  else quoted

/-- The indentation of a scalar's lines after its first. -/
def indentation : List Char := [' ', ' ']

/-- The inside of a single-quoted scalar; `fresh` tells that a line begins. -/
def singleText (fresh : Bool) : List Char → List Char
  | [] => if fresh then indentation else []
  | c :: rest =>
    if isAnyBreak c then c :: singleText true rest
    else
      (if fresh then indentation else []) ++ (if c == '\'' then ['\'', '\''] else [c]) ++
        singleText false rest

/-- A number in base sixteen with capital letters. -/
def capitalHex (n : Nat) : Nat → List Char
  | 0 => []
  | width + 1 => capitalHex (n / 16) width ++ [(Nat.digitChar (n % 16)).toUpper]

/-- A character inside a double-quoted scalar. -/
def doubleChar (c : Char) : List Char :=
  if isWritable c && !isAnyBreak c && c != '"' && c != '\\' then [c]
  else
    '\\' :: match c with
      | '\x00' => ['0']
      | '\x07' => ['a']
      | '\x08' => ['b']
      | '\t' => ['t']
      | '\n' => ['n']
      | '\x0b' => ['v']
      | '\x0c' => ['f']
      | '\r' => ['r']
      | '\x1b' => ['e']
      | '"' => ['"']
      | '\\' => ['\\']
      | '\u0085' => ['N']
      | '\u2028' => ['L']
      | '\u2029' => ['P']
      | c =>
        if c.toNat ≤ 0xFF then 'x' :: capitalHex c.toNat 2 else 'u' :: capitalHex c.toNat 4

/-- The marks after the bar of a literal: its indentation, where the text does not show it, and
what to do with the line breaks at its end. -/
def literalMarks (s : List Char) : List Char :=
  let opening := (s.head?.map fun c => c == ' ' || isAnyBreak c).getD false
  let chomp := match s.reverse with
    | [] => ['-']
    | [c] => if isAnyBreak c then ['+'] else ['-']
    | c :: d :: _ => if !isAnyBreak c then ['-'] else if isAnyBreak d then ['+'] else []
  (if opening then ['2'] else []) ++ chomp

/-- The lines of a literal, each indented unless it is empty. -/
def literalText (fresh : Bool) : List Char → List Char
  | [] => if fresh then [] else ['\n']
  | c :: rest =>
    if isAnyBreak c then c :: literalText true rest
    else (if fresh then indentation else []) ++ c :: literalText false rest

/-- A text as the value of a key or the entry of a sequence, up to the end of its last line. -/
def scalarText (s : List Char) : List Char :=
  match styleOf s with
  | .plain => s ++ ['\n']
  | .singleQuoted => '\'' :: singleText false s ++ ['\'', '\n']
  | .doubleQuoted => '"' :: s.flatMap doubleChar ++ ['"', '\n']
  | .literal | .folded => '|' :: literalMarks s ++ '\n' :: literalText true s

/-- A field with a text for its value. -/
def fieldText (name : String) (s : String) : List Char :=
  name.toList ++ ':' :: ' ' :: scalarText s.toList

/-- A field with a list of texts. -/
def listFieldText (name : String) : List String → List Char
  | [] => name.toList ++ ": []\n".toList
  | items => name.toList ++ ':' :: '\n' :: items.flatMap fun s => '-' :: ' ' :: scalarText s.toList

end AgentPrompt.Yaml
