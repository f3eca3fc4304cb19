import AgentPrompt.Yaml.Token

/-! Cutting a YAML text into tokens. Indentation opens and closes block collections, and what turns
out to be a key gets its token put in front of it once the colon is seen. -/
namespace AgentPrompt.Yaml

/-- The place of a token that a colon may turn into a key. -/
structure Candidate where
  number : Nat
  /-- Nothing else than a key can stand there. -/
  required : Bool
  place : Place

structure Lexer where
  cursor : Cursor
  /-- The tokens read, last one first, and their number. -/
  tokens : List Token := []
  count : Nat := 0
  /-- The column of the block collection around the cursor, and of those around it. -/
  indent : Int := -1
  indents : List Int := []
  /-- The candidate of the innermost flow collection, and those of the collections around it. -/
  candidate : Option Candidate := none
  outer : List (Option Candidate) := []
  keyAllowed : Bool := true

namespace Lexer

def inFlow (x : Lexer) : Bool :=
  !x.outer.isEmpty

def push (x : Lexer) (t : Token) : Lexer :=
  { x with tokens := t :: x.tokens, count := x.count + 1 }

/-- Puts a token in front of the one with this number. -/
def insertAt (x : Lexer) (number : Nat) (t : Token) : Lexer :=
  let later := x.count - number
  { x with tokens := x.tokens.take later ++ t :: x.tokens.drop later, count := x.count + 1 }

/-- Passes blanks, comments and line breaks up to the next token, and a byte order mark at the start
of a line. A tab may not stand where a block collection could begin. -/
def skipFrom (flow keyAllowed comment : Bool) (place : Place) : List Char → Cursor × Bool
  | [] => (⟨place, []⟩, keyAllowed)
  | c :: rest =>
    if isBreak c then skipFrom flow (keyAllowed || !flow) false (place.after c) rest
    else if comment || c == '#' then skipFrom flow keyAllowed true (place.after c) rest
    else if c == ' ' || (c == '\t' && (flow || !keyAllowed)) ||
        (c == byteOrderMark && place.column == 0) then
      skipFrom flow keyAllowed false (place.after c) rest
    else (⟨place, c :: rest⟩, keyAllowed)

def skipToToken (x : Lexer) : Lexer :=
  let (cursor, keyAllowed) :=
    skipFrom x.inFlow x.keyAllowed false x.cursor.toPlace x.cursor.rest
  { x with cursor, keyAllowed }

/-- How many octets a key may take up together with the blanks before its colon. -/
def keyLimit : Nat := 1024

/-- A key stands on one line and within the limit; a candidate past that is given up. Those outside
a flow collection wait until it is closed. -/
def refresh (c : Cursor) : Option Candidate → Except Fault (Option Candidate)
  | none => .ok none
  | some k =>
    if k.place.line < c.line || k.place.offset + keyLimit < c.offset then
      if k.required then .error .keyWithoutColon else .ok none
    else .ok (some k)

def dropStale (x : Lexer) : Except Fault Lexer := do
  return { x with candidate := ← refresh x.cursor x.candidate }

def dropCandidate (x : Lexer) : Except Fault Lexer :=
  match x.candidate with
  | some k => if k.required then .error .keyWithoutColon else .ok { x with candidate := none }
  | none => .ok x

/-- Marks the next token as one that may turn out to be a key. -/
def saveCandidate (x : Lexer) : Except Fault Lexer :=
  if x.keyAllowed then do
    let x ← x.dropCandidate
    let required := !x.inFlow && x.indent == x.cursor.column
    return { x with candidate := some ⟨x.count, required, x.cursor.toPlace⟩ }
  else .ok x

/-- Opens a block collection at a column to the right of the one around it. Its token is put in
front of the token with the given number, if there is one. -/
def openBlock (x : Lexer) (column : Nat) (number : Option Nat) (t : Token) : Lexer :=
  if !x.inFlow && x.indent < column then
    let x := { x with indents := x.indent :: x.indents, indent := column }
    match number with
    | some n => x.insertAt n t
    | none => x.push t
  else x

/-- Closes the block collections to the right of a column. -/
def closeBlocks (column : Int) (x : Lexer) : List Int → Lexer
  | [] => x
  | outer :: rest =>
    if column < x.indent then
      closeBlocks column { x.push .blockEnd with indent := outer, indents := rest } rest
    else x

def unroll (x : Lexer) (column : Int) : Lexer :=
  if x.inFlow then x else closeBlocks column x x.indents

/-- A token of some characters that neither is a key nor allows one after it. -/
def mark (x : Lexer) (t : Token) (length : Nat) : Lexer :=
  { x.push t with cursor := x.cursor.skip length }

def endStream (x : Lexer) : Except Fault Lexer := do
  let x ← (x.unroll (-1)).dropCandidate
  return { x.push .streamEnd with keyAllowed := false }

def directive (x : Lexer) : Except Fault Lexer := do
  let x ← (x.unroll (-1)).dropCandidate
  let (t, cursor) ← readDirective x.cursor
  return { x.push t with cursor, keyAllowed := false }

def documentMark (x : Lexer) (t : Token) : Except Fault Lexer := do
  let x ← (x.unroll (-1)).dropCandidate
  return { x.mark t 3 with keyAllowed := false }

def openFlow (x : Lexer) (t : Token) : Except Fault Lexer := do
  let x ← x.saveCandidate
  return { x.mark t 1 with
    outer := x.candidate :: x.outer, candidate := none, keyAllowed := true }

def closeFlow (x : Lexer) (t : Token) : Except Fault Lexer := do
  let x ← x.dropCandidate
  let (candidate, outer) := match x.outer with
    | [] => (x.candidate, [])
    | k :: outer => (k, outer)
  return { x.mark t 1 with candidate, outer, keyAllowed := false }

def flowEntry (x : Lexer) : Except Fault Lexer := do
  let x ← x.dropCandidate
  return { x.mark .flowEntry 1 with keyAllowed := true }

def blockEntry (x : Lexer) : Except Fault Lexer := do
  if !x.inFlow && !x.keyAllowed then .error .entryNotAllowed
  else
    let x ← (x.openBlock x.cursor.column none .blockSequenceStart).dropCandidate
    return { x.mark .blockEntry 1 with keyAllowed := true }

def key (x : Lexer) : Except Fault Lexer := do
  if !x.inFlow && !x.keyAllowed then .error .keyNotAllowed
  else
    let x ← (x.openBlock x.cursor.column none .blockMappingStart).dropCandidate
    return { x.mark .key 1 with keyAllowed := !x.inFlow }

def value (x : Lexer) : Except Fault Lexer :=
  match x.candidate with
  | some k =>
    let x := (x.insertAt k.number .key).openBlock k.place.column (some k.number) .blockMappingStart
    .ok { x.mark .value 1 with candidate := none, keyAllowed := false }
  | none =>
    if !x.inFlow && !x.keyAllowed then .error .valueNotAllowed
    else
      let x := x.openBlock x.cursor.column none .blockMappingStart
      .ok { x.mark .value 1 with keyAllowed := !x.inFlow }

def anchor (x : Lexer) (token : List Char → Token) : Except Fault Lexer := do
  let x ← x.saveCandidate
  let (name, cursor) ← readAnchor x.cursor
  return { x.push (token name) with cursor, keyAllowed := false }

def tag (x : Lexer) : Except Fault Lexer := do
  let x ← x.saveCandidate
  let (t, cursor) ← readTag x.inFlow x.cursor
  return { x.push t with cursor, keyAllowed := false }

def block (x : Lexer) (folded : Bool) : Except Fault Lexer := do
  let x ← x.dropCandidate
  let (text, cursor) ← blockScalar folded x.indent (x.cursor.skip 1)
  let style := if folded then Style.folded else .literal
  return { x.push (.scalar style text) with cursor, keyAllowed := true }

def single (x : Lexer) : Except Fault Lexer := do
  let x ← x.saveCandidate
  let c := x.cursor.skip 1
  let (text, cursor) ← singleFrom [] none c.toPlace c.rest
  return { x.push (.scalar .singleQuoted text) with cursor, keyAllowed := false }

def double (x : Lexer) : Except Fault Lexer := do
  let x ← x.saveCandidate
  let c := x.cursor.skip 1
  let (text, cursor) ← doubleFrom [] none c.toPlace c.rest
  return { x.push (.scalar .doubleQuoted text) with cursor, keyAllowed := false }

def plain (x : Lexer) : Except Fault Lexer := do
  let x ← x.saveCandidate
  let c := x.cursor
  let p ← plainFrom x.inFlow (x.indent + 1).toNat [] none c.toPlace c.rest
  return { x.push (.scalar .plain p.text) with cursor := p.cursor, keyAllowed := p.broken }

/-- Characters that mean something at the start of a token. -/
def indicators : List Char := "-?:,[]\x7b\x7d#&*!|>'\"%@`".toList

/-- Whether a plain scalar may start with `c` when `rest` follows it. -/
def startsPlain (flow : Bool) (c : Char) (rest : List Char) : Bool :=
  !(isBlank c || indicators.contains c) ||
    (c == '-' && !(rest.head?.map isBlank).getD false) ||
    (!flow && (c == '?' || c == ':') && !startsBlank rest)

/-- Reads the token that starts at the cursor. -/
def token (x : Lexer) (c : Char) (rest : List Char) : Except Fault Lexer :=
  let first := x.cursor.column == 0
  let apart := startsBlank rest
  if first && c == '%' then x.directive
  else if first && startsMarker '-' (c :: rest) then x.documentMark .documentStart
  else if first && startsMarker '.' (c :: rest) then x.documentMark .documentEnd
  else if c == '[' then x.openFlow .flowSequenceStart
  else if c == '\x7b' then x.openFlow .flowMappingStart
  else if c == ']' then x.closeFlow .flowSequenceEnd
  else if c == '\x7d' then x.closeFlow .flowMappingEnd
  else if c == ',' then x.flowEntry
  else if c == '-' && apart then x.blockEntry
  else if c == '?' && (x.inFlow || apart) then x.key
  else if c == ':' && (x.inFlow || apart) then x.value
  else if c == '*' then x.anchor .alias
  else if c == '&' then x.anchor .anchor
  else if c == '!' then x.tag
  else if c == '|' && !x.inFlow then x.block false
  else if c == '>' && !x.inFlow then x.block true
  else if c == '\'' then x.single
  else if c == '"' then x.double
  else if startsPlain x.inFlow c rest then x.plain
  else .error .strayCharacter

/-- Where a block collection counts as ended at the end of the text: on a line of its own. -/
def atEnd (x : Lexer) : Lexer :=
  if x.cursor.column = 0 then x
  else { x with cursor := { x.cursor with column := 0, line := x.cursor.line + 1 } }

/-- Reads all tokens; every step passes a character, so the text's length bounds their number. -/
def run : Nat → Lexer → Except Fault (List Token)
  | 0, _ => .error .strayCharacter
  | fuel + 1, x => do
    let x ← x.skipToToken.dropStale
    let x := x.unroll x.cursor.column
    match x.cursor.rest with
    | [] => return (← x.atEnd.endStream).tokens.reverse
    | c :: rest => run fuel (← x.token c rest)

end Lexer

/-- The tokens of a text. -/
def tokens (s : List Char) : Except Fault (List Token) := do
  let s ← source s
  Lexer.run (s.length + 1) { cursor := { rest := s } }

end AgentPrompt.Yaml
