import AgentPrompt.CommandLine.Ending
import AgentPrompt.CommandLine.Inputs
import AgentPrompt.Audit.Prompt

/-! The commands, and a run of the program with what it leaves behind. -/
namespace AgentPrompt.CommandLine

def registryOf (sources : Sources) : Inquiry Registry := do
  let s ← loadSettings sources.config
  loadRegistry sources s

def renderPrompt (w : Surroundings) (options : PromptOptions) : Inquiry String := do
  let inputs ← gather w options
  Inquiry.ofExcept (Prompt.renderWith inputs.context inputs.template)

/-- The audit of gathered inputs. A template with unknown variables is not filled. -/
def auditInputs (inputs : Inputs) : Except Error Audit.Report := do
  let tools := Audit.auditTools inputs.context.toolList.toList inputs.registry.tools
  let problems := Audit.templateProblems (fun n => n ∈ Context.variableNames) .unknownVariables
    inputs.template
  let names : Audit.Check := ⟨.variables, problems⟩
  if problems.isEmpty then
    let output ← Prompt.renderWith inputs.context inputs.template
    return tools ++
      names :: Audit.auditPrompt inputs.template inputs.context.bindings output
  else return tools ++ [names]

/-- Carries out a request. -/
def Request.perform (w : Surroundings) : Request → Inquiry Outcome
  | .render options none => Outcome.printed <$> renderPrompt w options
  | .render options (some path) => Outcome.saved path <$> renderPrompt w options
  | .tools sources => do
    let r ← registryOf sources
    Outcome.printed <$> Inquiry.ofExcept (Tool.blockList r.tools)
  | .schema name sources => do
    let r ← registryOf sources
    Outcome.printed <$> Inquiry.ofExcept do (← r.get name).block
  | .check options => do
    let inputs ← gather w options
    Outcome.audited <$> Inquiry.ofExcept (auditInputs inputs)

/-- The program, over whatever carries out its requests and takes what it has to show. -/
def program {m : Type → Type} [Monad m] (perform : Request → m (Except Error Outcome))
    (out : Outlet m) (args : List String) : m Ending := do
  let ending ← match Invocation.ofArguments args with
    | .version c => pure (.version c)
    | .help => pure .help
    | .misuse => pure .misuse
    | .run request => Ending.ofResult <$> perform request
  ending.deliver out

/-! ## Runs on a tree of files -/

/-- What a run changes: the bytes that standard output has taken, and the files. -/
structure Outside where
  output : List UInt8 := []
  files : FileTree

def bytes (text : String) : List UInt8 :=
  text.toList.flatMap String.utf8EncodeChar

/-- What may keep the outside from taking a text, even where nothing is wrong with its path. Standard
output may have taken some bytes before; a file that is not written is left as it was. -/
structure Devices where
  printFault? : (text : String) → Option (Nat × FileFault) := fun _ => none
  writeFault? : (path text : String) → Option FileFault := fun _ _ => none

namespace Devices

def print (d : Devices) (text : String) : StateM Outside (Option FileFault) := fun o =>
  match d.printFault? text with
  | none => (none, { o with output := o.output ++ bytes text })
  | some (taken, fault) => (some fault, { o with output := o.output ++ (bytes text).take taken })

def save (d : Devices) (directory : WorkingDirectory) (path text : String) :
    StateM Outside (Option FileFault) := fun o =>
  match d.writeFault? path text with
  | some fault => (some fault, o)
  | none =>
    match o.files.writeText directory path text with
    | .ok files => (none, { o with files })
    | .error fault => (some fault, o)

def outlet (d : Devices) (directory : WorkingDirectory) : Outlet (StateM Outside) :=
  ⟨d.print, d.save directory⟩

end Devices

/-- Carries out a request on a tree of files, which stays as it is. -/
def Request.result (w : Surroundings) (r : Request) : StateM Outside (Except Error Outcome) :=
  fun o => ((r.perform w).run o.files w.directory, o)

/-- Runs the program on a tree of files. Returns how it ends and what it leaves. -/
def runOn (d : Devices) (w : Surroundings) (t : FileTree) (args : List String) :
    Ending × Outside :=
  program (Request.result w) (d.outlet w.directory) args { files := t }

/-- A run whose output and files are taken. Returns the tree as it leaves it. -/
def run (w : Surroundings) (t : FileTree) (args : List String) : Ending × FileTree :=
  let (ending, after) := runOn {} w t args
  (ending, after.files)

end AgentPrompt.CommandLine
