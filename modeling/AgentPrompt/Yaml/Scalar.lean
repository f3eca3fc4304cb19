import AgentPrompt.Yaml.Source

/-! The scalars of a YAML text in their five styles. Inside plain and quoted scalars, blanks around
line breaks are dropped and a single line feed becomes a space. -/
namespace AgentPrompt.Yaml

inductive Style where
  | plain
  | singleQuoted
  | doubleQuoted
  | literal
  | folded
  deriving DecidableEq, Repr

/-- A run of blanks and breaks between two characters of a scalar. -/
structure Gap where
  /-- The blanks before the first break, last one first. -/
  blanks : List Char := []
  /-- The breaks, last one first. -/
  breaks : List Char := []
  broken : Bool := false
  /-- The first break was escaped and leaves nothing behind. -/
  escaped : Bool := false

namespace Gap

def add (g : Gap) (c : Char) : Gap :=
  if isBreak c then { g with breaks := c :: g.breaks, broken := true }
  else if g.broken then g
  else { g with blanks := c :: g.blanks }

/-- What line breaks leave of themselves. -/
def fold : List Char → List Char
  | ['\n'] => [' ']
  | '\n' :: more => more
  | breaks => breaks

def text (g : Gap) : List Char :=
  if !g.broken then g.blanks.reverse
  else if g.escaped then g.breaks.reverse
  else fold g.breaks.reverse

end Gap

/-- A gap that may not have begun. -/
def gapText : Option Gap → List Char
  | none => []
  | some g => g.text

def isFlowIndicator (c : Char) : Bool :=
  c == ',' || c == '[' || c == ']' || c == '\x7b' || c == '\x7d'

/-- Whether a plain scalar ends before `c`, which `rest` follows. `apart` tells that blanks or
breaks stand before `c`. -/
def endsPlain (flow : Bool) (indent column : Nat) (apart : Bool) (c : Char) (rest : List Char) :
    Bool :=
  (apart && ((!flow && column < indent) || c == '#')) ||
    (column == 0 && startsDocumentMarker (c :: rest)) ||
    (c == ':' && startsBlank rest) || (flow && isFlowIndicator c)

/-- Whether `c` is a colon that may not stand inside a plain scalar of a flow collection. -/
def isFlowColon (c : Char) (rest : List Char) : Bool :=
  c == ':' && (rest.head?.map fun d => isFlowIndicator d || d == '?').getD false

/-- A plain scalar's text, where it ends, and whether a line break stands before that place. -/
structure Plain where
  text : List Char
  cursor : Cursor
  broken : Bool

/-- Reads a plain scalar whose lines are indented by `indent` at least. `text` is what was read,
last character first. -/
def plainFrom (flow : Bool) (indent : Nat) (text : List Char) (gap : Option Gap)
    (place : Place) : List Char → Except Fault Plain
  | [] => .ok ⟨text.reverse, ⟨place, []⟩, (gap.map Gap.broken).getD false⟩
  | c :: rest =>
    let g := gap.getD {}
    if isBreak c then plainFrom flow indent text (some (g.add c)) (place.after c) rest
    else if isBlank c then
      if g.broken && place.column < indent && c == '\t' then .error .tabInIndentation
      else plainFrom flow indent text (some (g.add c)) (place.after c) rest
    else if endsPlain flow indent place.column gap.isSome c rest then
      .ok ⟨text.reverse, ⟨place, c :: rest⟩, (gap.map Gap.broken).getD false⟩
    else if flow && isFlowColon c rest then .error .colonInFlow
    else plainFrom flow indent (c :: (gapText gap).reverse ++ text) none (place.after c) rest

/-- Reads a single-quoted scalar after its opening quote. -/
def singleFrom (text : List Char) (gap : Option Gap) (place : Place) :
    List Char → Except Fault (List Char × Cursor)
  | [] => .error .unclosedQuote
  | '\'' :: '\'' :: rest =>
    singleFrom ('\'' :: (gapText gap).reverse ++ text) none (place.afterAll ['\'', '\'']) rest
  | c :: rest =>
    if isBreak c || isBlank c then
      singleFrom text (some ((gap.getD {}).add c)) (place.after c) rest
    else if place.column == 0 && startsDocumentMarker (c :: rest) then
      .error .documentMarkInQuote
    else
      let text := (gapText gap).reverse ++ text
      if c == '\'' then .ok (text.reverse, ⟨place.after c, rest⟩)
      else singleFrom (c :: text) none (place.after c) rest

/-- The character that an escape of one letter stands for. -/
def shortEscape? : Char → Option Char
  | '0' => some '\x00'
  | 'a' => some '\x07'
  | 'b' => some '\x08'
  | 't' => some '\t'
  | '\t' => some '\t'
  | 'n' => some '\n'
  | 'v' => some '\x0b'
  | 'f' => some '\x0c'
  | 'r' => some '\r'
  | 'e' => some '\x1b'
  | ' ' => some ' '
  | '"' => some '"'
  | '/' => some '/'
  | '\\' => some '\\'
  | 'N' => some '\u0085'
  | '_' => some '\u00a0'
  | 'L' => some lineSeparator
  | 'P' => some paragraphSeparator
  | _ => none

def hexDigit? (c : Char) : Option Nat :=
  if c.isDigit then some (c.toNat - 48)
  else if 'a' ≤ c ∧ c ≤ 'f' then some (c.toNat - 87)
  else if 'A' ≤ c ∧ c ≤ 'F' then some (c.toNat - 55)
  else none

def hexNumber? (digits : List Char) : Option Nat :=
  digits.foldlM (fun n d => (hexDigit? d).map (n * 16 + ·)) 0

/-- The character of an escape by number. -/
def codeEscape? (digits : List Char) : Option Char :=
  match hexNumber? digits with
  | some n => if h : n.isValidChar then some (Char.ofNatAux n h) else none
  | none => none

/-- Reads a double-quoted scalar after its opening quote. -/
def doubleFrom (text : List Char) (gap : Option Gap) (place : Place) :
    List Char → Except Fault (List Char × Cursor)
  | [] => .error .unclosedQuote
  | '\\' :: 'x' :: a :: b :: rest =>
    match codeEscape? [a, b] with
    | some e =>
      doubleFrom (e :: (gapText gap).reverse ++ text) none (place.afterAll ['\\', 'x', a, b]) rest
    | none => .error .badEscape
  | '\\' :: 'u' :: a :: b :: c :: d :: rest =>
    match codeEscape? [a, b, c, d] with
    | some e =>
      doubleFrom (e :: (gapText gap).reverse ++ text) none
        (place.afterAll ['\\', 'u', a, b, c, d]) rest
    | none => .error .badEscape
  | '\\' :: 'U' :: a :: b :: c :: d :: e :: f :: g :: h :: rest =>
    match codeEscape? [a, b, c, d, e, f, g, h] with
    | some e' =>
      doubleFrom (e' :: (gapText gap).reverse ++ text) none
        (place.afterAll ['\\', 'U', a, b, c, d, e, f, g, h]) rest
    | none => .error .badEscape
  | '\\' :: e :: rest =>
    let place := place.afterAll ['\\', e]
    if isBreak e then
      doubleFrom ((gapText gap).reverse ++ text) (some { broken := true, escaped := true }) place
        rest
    else
      match shortEscape? e with
      | some e => doubleFrom (e :: (gapText gap).reverse ++ text) none place rest
      | none => .error .badEscape
  | c :: rest =>
    if isBreak c || isBlank c then
      doubleFrom text (some ((gap.getD {}).add c)) (place.after c) rest
    else if place.column == 0 && startsDocumentMarker (c :: rest) then
      .error .documentMarkInQuote
    else
      let text := (gapText gap).reverse ++ text
      if c == '"' then .ok (text.reverse, ⟨place.after c, rest⟩)
      else doubleFrom (c :: text) none (place.after c) rest

/-- What becomes of the line breaks at the end of a block scalar. -/
inductive Chomp where
  | strip
  | clip
  | keep
  deriving DecidableEq, Repr

/-- The header of a block scalar: how to chomp, and by how much its lines are indented. -/
structure BlockHeader where
  chomp : Chomp := .clip
  increment : Option Nat := none

def chompMark? : Char → Option Chomp
  | '+' => some .keep
  | '-' => some .strip
  | _ => none

/-- Reads the two marks of a header, which stand in any order. -/
def blockHeader (s : List Char) : Except Fault (BlockHeader × Nat) :=
  let digit? (c : Char) : Option Nat := if c.isDigit then some (c.toNat - 48) else none
  let checked (h : BlockHeader) (n : Nat) : Except Fault (BlockHeader × Nat) :=
    if h.increment = some 0 then .error .badBlockHeader else .ok (h, n)
  match s with
  | [] => .ok ({}, 0)
  | a :: rest =>
    let second := rest.head?
    match chompMark? a, digit? a with
    | some chomp, _ =>
      match second.bind digit? with
      | some n => checked { chomp, increment := some n } 2
      | none => .ok ({ chomp }, 1)
    | none, some n =>
      match second.bind chompMark? with
      | some chomp => checked { chomp, increment := some n } 2
      | none => checked { increment := some n } 1
    | none, none => .ok ({}, 0)

/-- Passes indentation and empty lines before a line of a block scalar. Returns the breaks, the
widest column reached, and the place of the line. Without an indentation all spaces are passed. -/
def blockBreaks (indent : Option Nat) (breaks : List Char) (widest : Nat) (place : Place) :
    List Char → Except Fault (List Char × Nat × Cursor)
  | [] => .ok (breaks.reverse, max widest place.column, ⟨place, []⟩)
  | c :: rest =>
    let inside := (indent.map fun n => decide (place.column < n)).getD true
    if inside && c == ' ' then blockBreaks indent breaks widest (place.after c) rest
    else if inside && c == '\t' then .error .tabInIndentation
    else if isBreak c then
      blockBreaks indent (c :: breaks) (max widest place.column) (place.after c) rest
    else .ok (breaks.reverse, max widest place.column, ⟨place, c :: rest⟩)

/-- The text between two lines of a block scalar, from the break that ends the first and those of
empty lines after it. -/
def blockJoint (folded : Bool) (blankEdge : Bool) (ending breaks : List Char) : List Char :=
  if folded && ending == ['\n'] && !blankEdge then
    if breaks.isEmpty then [' '] else breaks
  else ending ++ breaks

/-- Reads the lines of a block scalar. `text` is what was read, last character first, `ending` is
the break of the line before, `blankBefore` tells whether that line starts with a blank, and
`breaks` are those of empty lines since. -/
def blockLines (folded : Bool) (indent : Nat) (text ending : List Char) (blankBefore : Bool)
    (breaks : List Char) : Nat → Cursor →
    Except Fault (List Char × List Char × List Char × Cursor)
  | 0, c => .ok (text, ending, breaks, c)
  | fuel + 1, c =>
    if c.column == indent && !c.rest.isEmpty then do
      let blankHere := (c.head?.map isBlank).getD false
      let joint := blockJoint folded (blankBefore || blankHere) ending breaks
      let (content, c) := c.span fun x => !isBreak x
      let ending := c.head?.toList
      let c := c.next
      let (breaks, _, c) ← blockBreaks (some indent) [] 0 c.toPlace c.rest
      blockLines folded indent (content.reverse ++ joint.reverse ++ text) ending blankHere breaks
        fuel c
    else .ok (text, ending, breaks, c)

/-- Reads a block scalar after its opening mark. `parent` is the indentation of the collection
around it, or -1. -/
def blockScalar (folded : Bool) (parent : Int) (c : Cursor) :
    Except Fault (List Char × Cursor) := do
  let (header, used) ← blockHeader c.rest
  let c := (c.skip used).dropWhile isBlank
  let c := if c.head? = some '#' then c.dropLine else c
  if !startsBreak c.rest then .error .badBlockHeader
  else
    let c := c.next
    let given := header.increment.map fun n => (max parent 0).toNat + n
    let (breaks, widest, c) ← blockBreaks given [] 0 c.toPlace c.rest
    let indent := given.getD (max (max widest (parent + 1).toNat) 1)
    let (text, ending, breaks, c) ←
      blockLines folded indent [] [] false breaks c.rest.length c
    let tail := match header.chomp with
      | .strip => []
      | .clip => ending
      | .keep => ending ++ breaks
    .ok (text.reverse ++ tail, c)

end AgentPrompt.Yaml
