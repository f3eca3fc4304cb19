import AgentPrompt.Yaml.Node

/-! Reading values of the expected kind from nodes. A plain scalar without text counts as missing
wherever a collection or an optional value is expected. Aliases may be followed only so many times
in a document, which bounds the work that nested aliases cause. -/
namespace AgentPrompt.Yaml

/-- A computation on a document; its state counts the aliases that may still be followed. -/
abbrev Decoding := StateT Nat (Except Fault)

namespace Document

/-- The node that an alias refers to: of the nodes with its number the one that begins last. -/
def anchor? (d : Document) (id : Nat) : Option Node :=
  (d.anchored.foldl (fun (best : Option Anchored) a =>
    if a.id != id then best
    else match best with
      | some b => if b.order < a.order then some a else best
      | none => some a) none).map Anchored.node

/-- How many aliases may be followed while a document is read. -/
def aliasLimit (d : Document) : Nat :=
  100 * (d.root.map Node.size).getD 0

/-- A node itself, or the one that it refers to. -/
def follow (d : Document) : Node → Decoding Node
  | .alias id => do
    match ← get with
    | 0 => throw .tooManyAliases
    | left + 1 =>
      set left
      return (d.anchor? id).getD (.alias id)
  | n => return n

/-- The text of a scalar, whatever its style and its tag. -/
def asText (d : Document) (n : Node) : Decoding String := do
  match ← d.follow n with
  | .scalar _ _ text => return String.ofList text
  | _ => throw .notText

/-- The spellings of null. -/
def nullTexts : List String := ["null", "Null", "NULL", "~"]

def isNullText (text : List Char) : Bool :=
  nullTexts.any fun t => t.toList == text

def nullTag : Tag := .ofText "tag:yaml.org,2002:null".toList

def booleanTag : Tag := .ofText "tag:yaml.org,2002:bool".toList

/-- A value that may be missing: a plain scalar without text or with a spelling of null. -/
def asOptional {α : Type} (d : Document) (read : Node → Decoding α) (n : Node) :
    Decoding (Option α) := do
  let n ← d.follow n
  let given : Decoding (Option α) := some <$> read n
  match n with
  | .scalar none .plain text => if text.isEmpty || isNullText text then return none else given
  | .scalar (some tag) .plain text =>
    if tag = nullTag then if isNullText text then return none else throw .notNull else given
  | _ => given

def flag? (text : List Char) : Option Bool :=
  if ["true", "True", "TRUE"].any fun t => t.toList == text then some true
  else if ["false", "False", "FALSE"].any fun t => t.toList == text then some false
  else none

/-- A boolean is plain, or a literal that is tagged as one. -/
def asFlag (d : Document) (n : Node) : Decoding Bool := do
  let read (text : List Char) : Decoding Bool :=
    match flag? text with
    | some b => return b
    | none => throw .notFlag
  match ← d.follow n with
  | .scalar _ .plain text => read text
  | .scalar (some tag) .literal text => if tag = booleanTag then read text else throw .notFlag
  | _ => throw .notFlag

/-- A list of values; nothing at all is an empty list. -/
def asList {α : Type} (d : Document) (read : Node → Decoding α) (n : Node) :
    Decoding (List α) := do
  match ← d.follow n with
  | .sequence items => items.mapM read
  | .scalar _ .plain [] => return []
  | _ => throw .notList

/-- What a local tag names: the text after its mark. -/
def localName? : Tag → Option String
  | 0x21 :: name => String.fromUTF8? name.toByteArray
  | _ => none

/-- One of the values that have a name: either the name itself or a local tag on nothing. -/
def asNamed {α : Type} (d : Document) (ofName? : String → Option α) (n : Node) : Decoding α := do
  let find (name : String) : Decoding α :=
    match ofName? name with
    | some v => return v
    | none => throw (.unknownValue name)
  match ← d.follow n with
  | .scalar tag style text =>
    match tag.bind localName? with
    | some name =>
      if style = .plain && (text.isEmpty || isNullText text) then find name else throw .notNull
    | none => find (String.ofList text)
  | _ => throw .notText

/-- A mapping's pairs with their keys as texts. -/
abbrev Fields := List (String × Node)

/-- The fields of a mapping; nothing at all has none. -/
def asFields (d : Document) (n : Node) : Decoding Fields := do
  match ← d.follow n with
  | .mapping entries => entries.mapM fun e => do return (← d.asText e.1, e.2)
  | .scalar _ .plain [] => return []
  | _ => throw .notMapping

end Document

namespace Document.Fields

/-- The node of a field. Other fields are of no interest, but a field may not be repeated. -/
def find (fields : Fields) (name : String) : Except Fault (Option Node) :=
  match fields.filter fun f => f.1 == name with
  | [] => .ok none
  | [f] => .ok (some f.2)
  | _ => .error (.repeatedField name)

/-- The value of a field that must be there. -/
def required {α : Type} (fields : Fields) (name : String) (read : Node → Decoding α) :
    Decoding α := do
  match ← find fields name with
  | some n => read n
  | none => throw (.missingField name)

/-- The value of a field, or another one without the field. -/
def optional {α : Type} (fields : Fields) (name : String) (fallback : α)
    (read : Node → Decoding α) : Decoding α := do
  match ← find fields name with
  | some n => read n
  | none => return fallback

end Document.Fields

/-- Reads a text whose document is a mapping. Without a document it has no fields. -/
def readFields {α : Type} (s : String) (read : Document → Document.Fields → Decoding α) :
    Except Fault α := do
  let d ← readDocument s.toList
  let fields : Decoding Document.Fields := match d.root with
    | some n => d.asFields n
    | none => return []
  (fields >>= read d).run' d.aliasLimit

end AgentPrompt.Yaml
