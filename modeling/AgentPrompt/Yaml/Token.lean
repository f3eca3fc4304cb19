import AgentPrompt.Yaml.Scalar

/-! The tokens of a YAML text. -/
namespace AgentPrompt.Yaml

/-- A tag, or a part of one. Escapes can name any octet, so a tag need not be a text. -/
abbrev Tag := List UInt8

/-- The tag that an ASCII text spells. -/
def Tag.ofText (s : List Char) : Tag :=
  s.map Char.toUInt8

/-- A tag ends before its first octet that is zero. -/
def Tag.cut (t : Tag) : Tag :=
  t.takeWhile (· != 0)

inductive Token where
  | streamEnd
  | versionDirective (major minor : Nat)
  | tagDirective (handle : List Char) (tagPrefix : Tag)
  | documentStart
  | documentEnd
  | blockSequenceStart
  | blockMappingStart
  | blockEnd
  | flowSequenceStart
  | flowSequenceEnd
  | flowMappingStart
  | flowMappingEnd
  | blockEntry
  | flowEntry
  | key
  | value
  | alias (name : List Char)
  | anchor (name : List Char)
  /-- A tag without a handle is given in full. -/
  | tag (handle : List Char) (suffix : Tag)
  | scalar (style : Style) (text : List Char)
  deriving DecidableEq, Repr

/-- The characters of anchors, handles and directive names. -/
def isWordChar (c : Char) : Bool :=
  c.isAlphanum || c == '_' || c == '-'

/-- The characters of a tag besides escapes; a verbatim tag may hold some more. -/
def isTagChar (verbatim : Bool) (c : Char) : Bool :=
  isWordChar c || ";/?:@&=+$.!~*'()".toList.contains c || (verbatim && ",[]".toList.contains c)

/-- The octet of an escape, without its percent sign. -/
def octet? (a b : Char) : Option UInt8 := do
  return .ofNat ((← hexDigit? a) * 16 + (← hexDigit? b))

/-- How many octets of a character are still due after `o`, when `due` were due before it. Escapes
must spell whole characters, as far as first octets and those that follow can tell. -/
def stillDue? (due : Nat) (o : UInt8) : Option Nat :=
  match due with
  | n + 1 => if o / 64 = 2 then some n else none
  | 0 =>
    if o < 0x80 then some 0
    else if o / 32 = 6 then some 1
    else if o / 16 = 14 then some 2
    else if o / 8 = 30 then some 3
    else none

/-- Reads the rest of a tag. `t` is what was read, last octet first, and `due` is how many octets of
a character must follow as escapes. -/
def tagFrom (verbatim : Bool) (t : Tag) (due : Nat) (place : Place) :
    List Char → Except Fault (Tag × Cursor)
  | '%' :: a :: b :: rest =>
    match octet? a b with
    | some o =>
      match stillDue? due o with
      | some due => tagFrom verbatim (o :: t) due (place.afterAll ['%', a, b]) rest
      | none => .error .badTag
    | none => .error .badTag
  | c :: rest =>
    if 0 < due || c == '%' then .error .badTag
    else if isTagChar verbatim c then
      tagFrom verbatim (c.toUInt8 :: t) due (place.after c) rest
    else .ok (t.reverse, ⟨place, c :: rest⟩)
  | [] => if 0 < due then .error .badTag else .ok (t.reverse, ⟨place, []⟩)

/-- Reads the characters of a tag as far as they go. -/
def readTagText (verbatim : Bool) (c : Cursor) : Except Fault (Tag × Cursor) :=
  tagFrom verbatim [] 0 c.toPlace c.rest

/-- Reads a tag that stands between `!<` and `>`. -/
def verbatimTag (c : Cursor) : Except Fault (Token × Cursor) := do
  let (t, c) ← readTagText true (c.skip 2)
  if t.isEmpty || c.head? != some '>' then .error .badTag
  else .ok (.tag [] t.cut, c.skip 1)

/-- Reads a tag with a handle, or one that is the primary handle and a suffix. The tag `!` alone
has neither. -/
def shorthandTag (c : Cursor) : Except Fault (Token × Cursor) := do
  let (word, c) := (c.skip 1).span isWordChar
  if c.head? = some '!' then
    let (suffix, c) ← readTagText false (c.skip 1)
    if suffix.isEmpty then .error .badTag
    else .ok (.tag ('!' :: word ++ ['!']) suffix.cut, c)
  else
    let (more, c) ← readTagText false c
    let suffix := (Tag.ofText word ++ more).cut
    if suffix.isEmpty then .ok (.tag [] (.ofText ['!']), c)
    else .ok (.tag ['!'] suffix, c)

/-- Reads a tag, which must be set apart from what follows. -/
def readTag (flow : Bool) (c : Cursor) : Except Fault (Token × Cursor) := do
  let (t, c) ← if c.rest[1]? = some '<' then verbatimTag c else shorthandTag c
  if (flow && c.head? = some ',') || startsBlank c.rest then .ok (t, c) else .error .badTag

/-- Reads the name of an anchor or an alias after its mark. -/
def readAnchor (c : Cursor) : Except Fault (List Char × Cursor) :=
  let (name, c) := (c.skip 1).span isWordChar
  let ended := match c.rest with
    | [] => true
    | x :: _ => startsBlank c.rest || "?:,]\x7d%@`".toList.contains x
  if !name.isEmpty && ended then .ok (name, c) else .error .badAnchor

/-- Reads a number of at most nine digits. -/
def readVersionNumber (c : Cursor) : Except Fault (Nat × Cursor) :=
  let (ds, c) := c.span Char.isDigit
  if ds.isEmpty || 9 < ds.length then .error .badDirective
  else .ok (ds.foldl (fun n d => n * 10 + (d.toNat - 48)) 0, c)

def readVersion (c : Cursor) : Except Fault (Token × Cursor) := do
  let (major, c) ← readVersionNumber (c.dropWhile isBlank)
  if c.head? = some '.' then
    let (minor, c) ← readVersionNumber (c.skip 1)
    .ok (.versionDirective major minor, c)
  else .error .badDirective

/-- Reads the handle that a directive declares and the text that it stands for. -/
def readTagDeclaration (c : Cursor) : Except Fault (Token × Cursor) := do
  let c := c.dropWhile isBlank
  if c.head? != some '!' then .error .badDirective
  else
    let (word, c) := (c.skip 1).span isWordChar
    let closed := c.head? = some '!'
    let c := if closed then c.skip 1 else c
    let handle := '!' :: word ++ (if closed then ['!'] else [])
    if !closed && !word.isEmpty then .error .badDirective
    else if !(c.head?.map isBlank).getD false then .error .badDirective
    else
      let (t, c) ← readTagText true (c.dropWhile isBlank)
      if t.isEmpty || !startsBlank c.rest then .error .badDirective
      else .ok (.tagDirective handle t.cut, c)

/-- Reads a directive to the end of its line. -/
def readDirective (c : Cursor) : Except Fault (Token × Cursor) := do
  let (name, c) := (c.skip 1).span isWordChar
  if !startsBlank c.rest then .error .badDirective
  else
    let (t, c) ←
      if name = "YAML".toList then readVersion c
      else if name = "TAG".toList then readTagDeclaration c
      else .error .badDirective
    let c := c.dropWhile isBlank
    let c := if c.head? = some '#' then c.dropLine else c
    if startsBreak c.rest then .ok (t, c.next) else .error .badDirective

end AgentPrompt.Yaml
