/-! Everything that can go wrong, with its text and the exit status of the command line. -/
namespace AgentPrompt

/-- The kinds of documents that are read as YAML. -/
inductive DocumentKind where
  | settings
  | catalog
  deriving DecidableEq, Repr

def DocumentKind.name : DocumentKind → String
  | .settings => "config YAML"
  | .catalog => "tool catalog"

/-- How the text of a document's error names the file it came from. -/
def DocumentKind.origin (kind : DocumentKind) (path : String) : String :=
  match kind with
  | .settings => s!" ({path})"
  | .catalog => s!" (in '{path}')"

inductive Error where
  | duplicateTool (name : String)
  | toolNotFound (name : String)
  | invalidTool (tool reason : String)
  /-- A placeholder names no variable; `position` is its offset in bytes. -/
  | unresolvedVariable (name : String) (position : Nat)
  /-- The placeholder opened at this offset in bytes is never closed. -/
  | unterminatedPlaceholder (position : Nat)
  | missingFact (name : String)
  /-- A setting has a value that cannot be used. -/
  | badSetting (reason : String)
  /-- A document cannot be read as what it should be. -/
  | badDocument (kind : DocumentKind) (detail : String) (path : Option String)
  | badFile (reason : String)
  | auditFailed (count : Nat)
  deriving DecidableEq, Repr

namespace Error

def message : Error → String
  | duplicateTool name => s!"tool '{name}' is already registered"
  | toolNotFound name => s!"tool '{name}' not found"
  | invalidTool tool reason => s!"invalid descriptor for tool '{tool}': {reason}"
  | unresolvedVariable name position =>
    s!"unresolved variable '{name}' at position {position} in template"
  | unterminatedPlaceholder position =>
    s!"unterminated placeholder '\x7b\x7b' at position {position} in template"
  | missingFact name => s!"context snapshot is missing required field '{name}'"
  | badSetting reason => reason
  | badDocument kind detail path =>
    s!"failed to parse {kind.name}: {detail}" ++ (path.map kind.origin).getD ""
  | badFile reason => reason
  | auditFailed count => s!"{count} audit check(s) failed"

def exitStatus : Error → Nat
  | badSetting _ | badDocument .. | badFile _ | missingFact _ => 1
  | duplicateTool _ | toolNotFound _ | invalidTool .. => 2
  | unresolvedVariable .. | unterminatedPlaceholder _ => 3
  | auditFailed _ => 4

/-- Names the file that a settings error was found in. -/
def inSettingsFile (path : String) : Error → Error
  | badSetting reason => badSetting (reason ++ DocumentKind.settings.origin path)
  | badDocument kind detail none => badDocument kind detail (some path)
  | e => e

/-- Names the file that a catalog error was found in. -/
def inCatalogFile (path : String) : Error → Error
  | badDocument kind detail none => badDocument kind detail (some path)
  | e => e

end Error
end AgentPrompt
