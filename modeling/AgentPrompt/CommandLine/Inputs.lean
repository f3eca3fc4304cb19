import AgentPrompt.CommandLine.Request
import AgentPrompt.CommandLine.Inquiry
import AgentPrompt.Settings
import AgentPrompt.Tool.Catalog
import AgentPrompt.Prompt.Builtin

/-! Gathering what a command works on: settings, tools, facts about the surroundings, and the
template. An option of the command line comes before the setting of the same meaning. -/
namespace AgentPrompt.CommandLine

/-- What a run knows of its surroundings without looking at files. -/
structure Surroundings where
  directory : WorkingDirectory
  shell : Option String
  system : String
  now : Instant

def loadSettingsFile (path : String) : Inquiry Settings := do
  let text ← Inquiry.text "config file" path
  let s ← Inquiry.ofExcept ((Settings.ofYaml text).mapError (Error.inSettingsFile path))
  return match Path.parent? path.toList with
    | some base => s.resolvePaths (String.ofList base)
    | none => s

/-- The settings file looked for where none is named. -/
def usualSettingsFile : String := "./" ++ Settings.defaultFile

/-- The settings of the named file, or those of the working directory if it has any. -/
def loadSettings : Option String → Inquiry Settings
  | some path => loadSettingsFile path
  | none => .isFile usualSettingsFile fun found =>
    if found then loadSettingsFile usualSettingsFile else pure {}

def loadCatalog (path : String) : Inquiry Catalog := do
  let text ← Inquiry.text "tool catalog" path
  Inquiry.ofExcept ((Catalog.ofYaml text).mapError (Error.inCatalogFile path))

/-- The enabled tools of the catalog that is named; without a catalog there are no tools. -/
def loadRegistry (sources : Sources) (s : Settings) : Inquiry Registry :=
  match sources.tools <|> s.toolsFile with
  | none => pure .empty
  | some path => do
    let catalog ← loadCatalog path
    Inquiry.ofExcept do
      Registry.ofCatalog (← catalog.select s.enabledTools)

/-- The files that tell what a project is built with; the first that is there decides. -/
def buildMarkers : List (String × String) :=
  [("Cargo.toml", "cargo"), ("build.gradle.kts", "gradle"), ("build.gradle", "gradle"),
    ("pom.xml", "maven"), ("package.json", "npm"), ("go.mod", "go"), ("pyproject.toml", "python")]

def unknownBuildTool : String := "unknown"

def findBuildTool (project : String) : Inquiry String := do
  let found ← Inquiry.firstFile? <|
    buildMarkers.map fun m => (Settings.resolvePath project m.1, m.2)
  return found.getD unknownBuildTool

def usualShell : String := "/bin/sh"

/-- The shell of the settings, or that of the surroundings unless it is blank. -/
def chooseShell (setting surrounding : Option String) : String :=
  setting.getD ((surrounding.filter fun s => !Text.isBlankText s.toList).getD usualShell)

/-- The template of a file, or the built-in one. -/
def loadTemplate (options : PromptOptions) (s : Settings) : Inquiry String :=
  match options.template <|> s.templateFile with
  | some path => Inquiry.text "template file" path
  | none => pure (Prompt.builtin (options.locale.getD s.locale))

/-- Everything that a prompt is compiled from. -/
structure Inputs where
  registry : Registry
  context : Context
  template : String

/-- The project of a prompt: the one that is named, or the working directory. -/
def projectRoot (w : Surroundings) (options : PromptOptions) : Except Error String :=
  match options.project with
  | some path => .ok path
  | none => w.directory.mapError fun fault =>
    .badFile s!"failed to determine current directory: {fault.message}"

/-- The facts that are known before any file of the project is read. -/
def knownFacts (w : Surroundings) (project : String) (s : Settings) (r : Registry)
    (buildTool : String) : List Fact :=
  [.projectPath project, .osInfo (s.osInfo.getD w.system),
    .shell (chooseShell s.shell w.shell), .buildTool buildTool, .timestamp w.now,
    .tools r.snapshot]

def optionalFacts (options : PromptOptions) (s : Settings) (rules : Option String) : List Fact :=
  (options.currentFile.map Fact.currentFile).toList ++ (rules.map Fact.agentRules).toList ++
    (s.projectStructure.map Fact.projectStructure).toList ++
    (s.moduleInfo.map Fact.moduleInfo).toList ++
    (s.frameworkContext.map Fact.frameworkContext).toList

def loadRules (s : Settings) : Inquiry (Option String) :=
  match s.agentRulesFile with
  | none => pure none
  | some path => some <$> Inquiry.text "agent rules file" path

def gatherWith (w : Surroundings) (options : PromptOptions) (s : Settings) (registry : Registry) :
    Inquiry Inputs := do
  let project ← Inquiry.ofExcept (projectRoot w options)
  let buildTool ← match s.buildTool with
    | some name => pure name
    | none => findBuildTool project
  let draft ← Inquiry.ofExcept <|
    (knownFacts w project s registry buildTool).foldlM Context.Draft.record {}
  let rules ← loadRules s
  let context ← Inquiry.ofExcept do
    let draft ← (optionalFacts options s rules).foldlM Context.Draft.record draft
    draft.finish
  let template ← loadTemplate options s
  return { registry, context, template }

/-- Gathers the inputs of a prompt; the first thing that fails is reported. -/
def gather (w : Surroundings) (options : PromptOptions) : Inquiry Inputs := do
  let s ← loadSettings options.sources.config
  let registry ← loadRegistry options.sources s
  gatherWith w options s registry

end AgentPrompt.CommandLine
