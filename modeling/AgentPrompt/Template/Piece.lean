import AgentPrompt.Text.Blank
import AgentPrompt.Error

/-! Templates cut into pieces. A placeholder is a name between `{{` and `}}`, with blanks allowed
around it. An opener inside an open placeholder makes the earlier one plain text, and so does a
content that is no name; everything outside placeholders is plain text. -/
namespace AgentPrompt.Template

def isNameStart (c : Char) : Bool :=
  c.isAlpha || c == '_'

def isNameRest (c : Char) : Bool :=
  c.isAlphanum || c == '_' || c == '.' || c == '-'

/-- A variable's name starts with an ASCII letter or an underscore. -/
def isName : List Char → Bool
  | [] => false
  | c :: rest => isNameStart c && rest.all isNameRest

inductive Piece where
  | literal (text : List Char)
  /-- `source` runs from the opening to the closing braces; `position` is its offset in bytes. -/
  | placeholder (name : List Char) (position : Nat) (source : List Char)
  deriving DecidableEq, Repr

def Piece.name? : Piece → Option String
  | literal _ => none
  | placeholder name _ _ => some (String.ofList name)

/-- A placeholder that is not yet closed: where it was opened and what followed. -/
structure Opened where
  position : Nat
  /-- The characters after the opener, last one first. -/
  body : List Char

def opener : List Char := ['\x7b', '\x7b']

def closer : List Char := ['\x7d', '\x7d']

/-- A literal piece for a text given last character first, unless it is empty. -/
def literalOf (text : List Char) : List Piece :=
  if text.isEmpty then [] else [.literal text.reverse]

/-- Cuts the rest of a template. `offset` is the byte offset of the rest, and `text` the literal
text since the last piece, last character first. -/
def cut (offset : Nat) (text : List Char) : Option Opened → List Char → Except Error (List Piece)
  | none, [] => .ok (literalOf text)
  | some o, [] => .error (.unterminatedPlaceholder o.position)
  | none, '\x7b' :: '\x7b' :: rest => cut (offset + 2) text (some ⟨offset, []⟩) rest
  | some o, '\x7b' :: '\x7b' :: rest =>
    cut (offset + 2) (o.body ++ opener ++ text) (some ⟨offset, []⟩) rest
  | some o, '\x7d' :: '\x7d' :: rest =>
    let name := Text.trim o.body.reverse
    if isName name then
      (cut (offset + 2) [] none rest).map fun pieces =>
        literalOf text ++
          .placeholder name o.position (opener ++ o.body.reverse ++ closer) :: pieces
    else cut (offset + 2) (closer ++ o.body ++ opener ++ text) none rest
  | none, c :: rest => cut (offset + c.utf8Size) (c :: text) none rest
  | some o, c :: rest => cut (offset + c.utf8Size) text (some { o with body := c :: o.body }) rest

/-- The pieces of a template, or the placeholder that is never closed. -/
def pieces (template : List Char) : Except Error (List Piece) :=
  cut 0 [] none template

end AgentPrompt.Template
