import AgentPrompt.Tool.ParamType

/-! Tools as they are declared. Types and defaults are kept as text, so that a catalog can be read
before its tools are checked. -/
namespace AgentPrompt

structure Parameter where
  name : String
  type : String
  required : Bool := false
  description : String := ""
  default : Option String := none
  /-- The type of an array's items. -/
  items : Option String := none
  deriving DecidableEq, Repr

structure Tool where
  name : String
  description : String := ""
  parameters : List Parameter := []
  examples : List String := []
  deriving DecidableEq, Repr

namespace Tool

/-- The names of the required parameters, in declaration order. -/
def requiredNames (t : Tool) : List String :=
  (t.parameters.filter (·.required)).map (·.name)

/-- What makes a declaration unusable. -/
inductive Fault where
  | emptyName
  | blankInName
  | emptyParameterName
  | repeatedParameter (name : String)
  | badType (parameter : String) (fault : ParamType.Fault)
  | badDefault (parameter : String) (type : ParamType) (text : String)
  | legacyMarkup (marker : String)
  deriving DecidableEq, Repr

def Fault.message : Fault → String
  | .emptyName => "tool name must not be empty"
  | .blankInName => "tool name must not contain whitespace"
  | .emptyParameterName => "parameter name must not be empty"
  | .repeatedParameter name => s!"parameter '{name}' is declared more than once"
  | .badType parameter fault => s!"parameter '{parameter}': {fault.message}"
  | .badDefault parameter type text => s!"parameter '{parameter}': {type.mismatch text}"
  | .legacyMarkup marker => s!"output would contain legacy markup '{marker}'"

/-- A parameter whose type and default are known to be usable. -/
structure Resolved where
  parameter : Parameter
  type : ParamType
  default : Option Json

def resolveParameter (p : Parameter) : Except Fault Resolved :=
  match ParamType.parse p.type p.items with
  | .error fault => .error (.badType p.name fault)
  | .ok type =>
    match p.default with
    | none => .ok ⟨p, type, none⟩
    | some text =>
      match type.defaultValue? text with
      | some v => .ok ⟨p, type, some v⟩
      | none => .error (.badDefault p.name type text)

/-- Resolves parameters in order and stops at the first fault. `seen` are the names before them. -/
def resolveAfter (seen : List String) : List Parameter → Except Fault (List Resolved)
  | [] => .ok []
  | p :: rest =>
    if Text.isBlankText p.name.toList then .error .emptyParameterName
    else if p.name ∈ seen then .error (.repeatedParameter p.name)
    else do
      let r ← resolveParameter p
      let more ← resolveAfter (p.name :: seen) rest
      .ok (r :: more)

/-- Checks the tool's name and then its parameters. -/
def resolve (t : Tool) : Except Fault (List Resolved) :=
  if Text.isBlankText t.name.toList then .error .emptyName
  else if t.name.toList.any Text.isBlank then .error .blankInName
  else resolveAfter [] t.parameters

end Tool
end AgentPrompt
