import AgentPrompt.Text.Blank
import AgentPrompt.Json.Reader

/-! The types of tool parameters: primitives, objects of any shape, and arrays of primitives. -/
namespace AgentPrompt

inductive Primitive where
  | string
  | integer
  | number
  | boolean
  deriving DecidableEq, Repr

namespace Primitive

def name : Primitive → String
  | string => "string"
  | integer => "integer"
  | number => "number"
  | boolean => "boolean"

def parse? (s : String) : Option Primitive :=
  [string, integer, number, boolean].find? fun p => p.name == s

/-- Whether a value is an instance of the type. -/
def accepts : Primitive → Json → Bool
  | string, .string _ => true
  | integer, .number (.int _) => true
  | number, .number _ => true
  | boolean, .bool _ => true
  | _, _ => false

theorem parse?_name (p : Primitive) : parse? p.name = some p := by
  cases p <;> decide

end Primitive

inductive ParamType where
  | primitive (type : Primitive)
  | object
  | array (item : Primitive)
  deriving DecidableEq, Repr

namespace ParamType

/-- Why a type name with its item type is no parameter type. -/
inductive Fault where
  | unknownType (type : String)
  | badItems (items : String)
  | itemsNotAllowed (items type : String)
  deriving DecidableEq, Repr

def Fault.message : Fault → String
  | .unknownType type => s!"unrecognized parameter type '{type}'"
  | .badItems items => s!"array items must be a primitive type, found '{items}'"
  | .itemsNotAllowed items type =>
    s!"'items' ('{items}') is only allowed on array parameters, not '{type}'"

/-- A type name alone, with strings for the items of an array. -/
def ofName? (type : String) : Option ParamType :=
  if type = "object" then some object
  else if type = "array" then some (array .string)
  else (Primitive.parse? type).map primitive

/-- Resolves a type name and an item type, which only arrays may have. -/
def parse (type : String) (items : Option String) : Except Fault ParamType :=
  match ofName? type, items with
  | none, _ => .error (.unknownType type)
  | some t, none => .ok t
  | some (array _), some item =>
    match Primitive.parse? item with
    | some p => .ok (array p)
    | none => .error (.badItems item)
  | some _, some item => .error (.itemsNotAllowed item type)

/-- The `type` keyword in a schema. -/
def name : ParamType → String
  | primitive p => p.name
  | object => "object"
  | array _ => "array"

def describe : ParamType → String
  | array item => s!"array of {item.name}"
  | t => t.name

/-- Whether a value is an instance of the type. -/
def accepts : ParamType → Json → Bool
  | primitive p, v => p.accepts v
  | object, .object _ => true
  | array item, .array items => items.all item.accepts
  | _, _ => false

/-- The value of a default written as text. A string is taken as it stands; any other type takes
JSON text, with blanks around it allowed, whose value is an instance of the type. -/
def defaultValue? (t : ParamType) (text : String) : Option Json :=
  if t = primitive .string then some (.string text)
  else match Json.readText (Text.trim text.toList) with
    | .ok v => if t.accepts v then some v else none
    | .error _ => none

theorem accepts_defaultValue? {t : ParamType} {text : String} {v : Json}
    (h : t.defaultValue? text = some v) : t.accepts v := by
  unfold defaultValue? at h
  split at h
  · rename_i ht
    obtain rfl := Option.some.inj h
    simp [ht, accepts, Primitive.accepts]
  · split at h
    · split at h
      · rename_i ha
        obtain rfl := Option.some.inj h
        exact ha
      · simp at h
    · simp at h

/-- What is said of a default that has no value of the type. -/
def mismatch (t : ParamType) (text : String) : String :=
  s!"default '{text}' is not a valid {t.describe}"

end ParamType
end AgentPrompt
