import AgentPrompt.Locale
import AgentPrompt.Path
import AgentPrompt.Error
import AgentPrompt.Yaml.Printer

/-! The settings of a project. All of them may be left out of the document that holds them. -/
namespace AgentPrompt

structure Settings where
  locale : Locale := .default
  /-- A template that takes the place of the built-in one. -/
  templateFile : Option String := none
  toolsFile : Option String := none
  /-- The tools to use; without a list all of a catalog's tools are used. -/
  enabledTools : Option (List String) := none
  agentRulesFile : Option String := none
  osInfo : Option String := none
  buildTool : Option String := none
  shell : Option String := none
  projectStructure : Option String := none
  moduleInfo : Option String := none
  frameworkContext : Option String := none
  deriving DecidableEq, Repr

namespace Settings

open Yaml (Document Decoding)
open Yaml.Document (Fields)

/-- The file that is looked for when no other is named. -/
def defaultFile : String := "toolprompt.yaml"

def read (d : Document) (fields : Fields) : Decoding Settings := do
  let text (name : String) : Decoding (Option String) :=
    Fields.optional fields name none (d.asOptional d.asText)
  return {
    locale := ← Fields.optional fields "locale" .default (d.asNamed Locale.ofName?)
    templateFile := ← text "template_file"
    toolsFile := ← text "tools_file"
    enabledTools :=
      ← Fields.optional fields "enabled_tools" none (d.asOptional (d.asList d.asText))
    agentRulesFile := ← text "agent_rules_file"
    osInfo := ← text "os_info"
    buildTool := ← text "build_tool"
    shell := ← text "shell"
    projectStructure := ← text "project_structure"
    moduleInfo := ← text "module_info"
    frameworkContext := ← text "framework_context" }

/-- The paths among the settings, by name. -/
def paths (s : Settings) : List (String × Option String) :=
  [("template_file", s.templateFile), ("tools_file", s.toolsFile),
    ("agent_rules_file", s.agentRulesFile)]

/-- The first thing that is wrong with the settings: a path that is empty, or else an enabled tool
with a blank name. -/
def fault? (s : Settings) : Option String :=
  match s.paths.find? fun p => p.2 == some "" with
  | some (name, _) => some s!"config validation failed: {name} must not be empty"
  | none =>
    if (s.enabledTools.getD []).any fun n => Text.isBlankText n.toList then
      some "config validation failed: enabled_tools entries must be non-empty"
    else none

def validate (s : Settings) : Except Error Unit :=
  match s.fault? with
  | some reason => .error (.badSetting reason)
  | none => .ok ()

/-- Reads settings and checks them. -/
def ofYaml (text : String) : Except Error Settings := do
  match Yaml.readFields text read with
  | .error fault => .error (.badDocument .settings fault.message none)
  | .ok s =>
    s.validate
    return s

/-- The settings as a document; what is unset is left out. -/
def toYaml (s : Settings) : String :=
  let text (name : String) (value : Option String) : List Char :=
    (value.map (Yaml.fieldText name)).getD []
  let list (name : String) (value : Option (List String)) : List Char :=
    (value.map (Yaml.listFieldText name)).getD []
  String.ofList <|
    Yaml.fieldText "locale" s.locale.name ++
    text "template_file" s.templateFile ++
    text "tools_file" s.toolsFile ++
    list "enabled_tools" s.enabledTools ++
    text "agent_rules_file" s.agentRulesFile ++
    text "os_info" s.osInfo ++
    text "build_tool" s.buildTool ++
    text "shell" s.shell ++
    text "project_structure" s.projectStructure ++
    text "module_info" s.moduleInfo ++
    text "framework_context" s.frameworkContext

def resolvePath (base path : String) : String :=
  String.ofList (Path.join base.toList path.toList)

/-- Makes relative paths start from `base`. -/
def resolvePaths (s : Settings) (base : String) : Settings :=
  { s with
    templateFile := s.templateFile.map (resolvePath base)
    toolsFile := s.toolsFile.map (resolvePath base)
    agentRulesFile := s.agentRulesFile.map (resolvePath base) }

end Settings
end AgentPrompt
