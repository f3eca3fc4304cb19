import AgentPrompt.Audit.Section
import AgentPrompt.Text.Quoted
import AgentPrompt.Markup

/-! The audit of a tool list. It reads the text again and trusts nothing about how it was made. -/
namespace AgentPrompt.Audit

def markupCheck (s : List Char) : Check :=
  ⟨.legacyMarkup, ((Markup.findLegacy? s).map Problem.legacyMarker).toList⟩

/-- The strings among the required names that a schema lists, if it lists any. -/
def listedNames (schema : Json) : Option (List String) :=
  (schema.field "required").asArray?.map fun items => items.filterMap Json.asString?

def dialectProblems (t : Tool) : Except SchemaFault Json → List Problem
  | .error fault => [.noSchema t.name fault]
  | .ok schema =>
    if (schema.field "$schema").asString? = some Tool.schemaDialect then []
    else [.wrongDialect t.name]

def requiredProblems (t : Tool) : Except SchemaFault Json → List Problem
  | .error _ => []
  | .ok schema =>
    if listedNames schema = some t.requiredNames then []
    else
      [.wrongRequired t.name (Text.quotedList t.requiredNames) (schema.field "required").print]

def openProblems (t : Tool) : Except SchemaFault Json → List Problem
  | .error _ => []
  | .ok schema =>
    match schema.field "additionalProperties" with
    | .bool false => []
    | _ => [.openObject t.name]

/-- How an example call of the tool starts. -/
def exampleCall (t : Tool) : List Char :=
  Tool.exampleHeading.toList ++ "\n/".toList ++ t.name.toList ++ ['\n'] ++ Tool.fence.toList

def exampleProblems (t : Tool) (sectionText : List Char) : List Problem :=
  if Text.contains (exampleCall t) sectionText then [] else [.noExample t.name]

/-- The problems that the schemas of the sections give rise to. -/
def schemaProblems (problems : Tool → Except SchemaFault Json → List Problem)
    (parts : List (Tool × List Char)) : List Problem :=
  parts.flatMap fun p => problems p.1 (readSchema p.2)

/-- The checks of a text against the tools it should list. Without the headers of all tools there
is nothing to say about sections. -/
def auditTools (s : List Char) (tools : List Tool) : Report :=
  match sections s tools with
  | none => [⟨.toolOrder, [.headersMissing]⟩, markupCheck s]
  | some texts =>
    let parts := tools.zip texts
    let stray := tools.isEmpty && !Text.isBlankText s
    [⟨.toolOrder, if stray then [.unexpectedTools] else []⟩,
      ⟨.schemas, schemaProblems dialectProblems parts⟩,
      ⟨.requiredFields, schemaProblems requiredProblems parts⟩,
      ⟨.closedObjects, schemaProblems openProblems parts⟩,
      ⟨.examples, parts.flatMap fun p => exampleProblems p.1 p.2⟩,
      markupCheck s]

end AgentPrompt.Audit
