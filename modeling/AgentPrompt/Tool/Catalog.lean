import AgentPrompt.Tool.Registry
import AgentPrompt.Yaml.Decode

/-! Catalogs of tools: YAML documents with a list of declarations in the order of presentation. -/
namespace AgentPrompt

structure Catalog where
  tools : List Tool := []
  deriving DecidableEq, Repr

namespace Catalog

open Yaml (Document Node Decoding)
open Yaml.Document (Fields)

def readParameter (d : Document) (n : Node) : Decoding Parameter := do
  let fields ← d.asFields n
  return {
    name := ← Fields.required fields "name" d.asText
    type := ← Fields.required fields "type" d.asText
    required := ← Fields.optional fields "required" false d.asFlag
    description := ← Fields.optional fields "description" "" d.asText
    default := ← Fields.optional fields "default" none (d.asOptional d.asText)
    items := ← Fields.optional fields "items" none (d.asOptional d.asText) }

def readTool (d : Document) (n : Node) : Decoding Tool := do
  let fields ← d.asFields n
  return {
    name := ← Fields.required fields "name" d.asText
    description := ← Fields.optional fields "description" "" d.asText
    parameters := ← Fields.optional fields "parameters" [] (d.asList (readParameter d))
    examples := ← Fields.optional fields "examples" [] (d.asList d.asText) }

def readCatalog (d : Document) (fields : Fields) : Decoding Catalog := do
  return ⟨← Fields.optional fields "tools" [] (d.asList (readTool d))⟩

/-- Reads a catalog. JSON text is YAML and is accepted too. -/
def ofYaml (s : String) : Except Error Catalog :=
  match Yaml.readFields s readCatalog with
  | .ok c => .ok c
  | .error fault => .error (.badDocument .catalog fault.message none)

/-- Keeps the enabled tools in catalog order. Every enabled name must be in the catalog; without a
list of names all tools are kept. -/
def select (c : Catalog) : Option (List String) → Except Error Catalog
  | none => .ok c
  | some enabled =>
    match enabled.find? fun n => !c.tools.any fun t => t.name == n with
    | some missing => .error (.toolNotFound missing)
    | none => .ok ⟨c.tools.filter fun t => t.name ∈ enabled⟩

end Catalog

/-- Registers the tools of a catalog. -/
def Registry.ofCatalog (c : Catalog) : Except Error Registry :=
  ofTools c.tools

end AgentPrompt
