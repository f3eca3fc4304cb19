/-! What an audit finds: a list of checks, each with its problems. -/
namespace AgentPrompt.Audit

/-- What a check looks at. -/
inductive Topic where
  | toolOrder
  | schemas
  | requiredFields
  | closedObjects
  | examples
  | legacyMarkup
  | variables
  | placeholders
  deriving DecidableEq, Repr

def Topic.name : Topic → String
  | .toolOrder => "tool order"
  | .schemas => "schema validity"
  | .requiredFields => "required fields"
  | .closedObjects => "closed parameter objects"
  | .examples => "examples"
  | .legacyMarkup => "no legacy markup"
  | .variables => "template variables"
  | .placeholders => "no unresolved placeholders"

/-- Why a section has no schema. -/
inductive SchemaFault where
  | noFence
  | emptyFence
  | notJson (detail : String)
  deriving DecidableEq, Repr

def SchemaFault.message : SchemaFault → String
  | .noFence => "no schema fence"
  | .emptyFence => "empty schema fence"
  | .notJson detail => s!"schema is not valid JSON: {detail}"

inductive Problem where
  | unexpectedTools
  | headersMissing
  | noSchema (tool : String) (fault : SchemaFault)
  | wrongDialect (tool : String)
  /-- Both lists are given as they are shown. -/
  | wrongRequired (tool expected found : String)
  | openObject (tool : String)
  | noExample (tool : String)
  | legacyMarker (marker : String)
  | unknownVariables (names : List String)
  | unresolved (names : List String)
  /-- The template has no pieces at all. -/
  | badTemplate (message : String)
  deriving DecidableEq, Repr

def Problem.message : Problem → String
  | .unexpectedTools => "expected an empty tool list"
  | .headersMissing => "tool headers are missing or out of registration order"
  | .noSchema tool fault => s!"{tool}: {fault.message}"
  | .wrongDialect tool => s!"{tool}: wrong $schema"
  | .wrongRequired tool expected found => s!"{tool}: expected {expected}, found {found}"
  | .openObject tool => s!"{tool}: additionalProperties is not false"
  | .noExample tool => s!"{tool}: no example call"
  | .legacyMarker marker => s!"found '{marker}'"
  | .unknownVariables names => "unknown variable(s): " ++ ", ".intercalate names
  | .unresolved names =>
    ", ".intercalate (names.map fun n => "'\x7b\x7b" ++ n ++ "\x7d\x7d'")
  | .badTemplate message => message

structure Check where
  topic : Topic
  problems : List Problem := []
  deriving DecidableEq, Repr

namespace Check

def passed (c : Check) : Bool :=
  c.problems.isEmpty

/-- The problems of a failed check in one text. -/
def message? (c : Check) : Option String :=
  if c.passed then none else some ("; ".intercalate (c.problems.map Problem.message))

end Check

abbrev Report := List Check

namespace Report

def passed (r : Report) : Bool :=
  r.all Check.passed

def failures (r : Report) : List Check :=
  r.filter fun c => !c.passed

/-- One line for a check. -/
def line (c : Check) : String :=
  "  " ++ (if c.passed then "✅" else "❌") ++ " " ++ c.topic.name ++
    (match c.message? with
      | some m => ": " ++ m
      | none => "") ++ "\n"

def text (r : Report) : String :=
  String.join (r.map line)

end Report
end AgentPrompt.Audit
