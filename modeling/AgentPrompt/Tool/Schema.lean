import AgentPrompt.Tool.Basic
import AgentPrompt.Json.Printer
import AgentPrompt.Error

/-! The JSON schema of a tool's parameters, printed on one line. Properties stand in declaration
order, and the object takes no other properties. -/
namespace AgentPrompt.Tool

/-- The dialect that every schema declares. -/
def schemaDialect : String := "http://json-schema.org/draft-07/schema#"

def Resolved.items : Resolved → List (String × Json)
  | ⟨_, .array item, _⟩ => [("items", .object [("type", .string item.name)])]
  | _ => []

def Resolved.property (r : Resolved) : Json :=
  .object <|
    [("type", .string r.type.name),
      ("description", .string (String.ofList (Text.trim r.parameter.description.toList)))] ++
    r.items ++ (r.default.map fun v => ("default", v)).toList

/-- The schema as a value, with its members in printing order. -/
def schemaValue (t : Tool) (parameters : List Resolved) : Json :=
  .object
    [("$schema", .string schemaDialect),
      ("title", .string t.name),
      ("type", .string "object"),
      ("properties", .object (parameters.map fun r => (r.parameter.name, r.property))),
      ("required", .ofStrings t.requiredNames),
      ("additionalProperties", .bool false)]

/-- An unusable tool as an error. -/
def invalid (t : Tool) (fault : Fault) : Error :=
  .invalidTool t.name fault.message

/-- The schema's text. -/
def schema (t : Tool) : Except Error String :=
  match t.resolve with
  | .ok parameters => .ok (schemaValue t parameters).print
  | .error fault => .error (t.invalid fault)

end AgentPrompt.Tool
