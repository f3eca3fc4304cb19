import AgentPrompt.Error
import AgentPrompt.Audit.Report
import AgentPrompt.CommandLine.FileTree
import AgentPrompt.CommandLine.Request

/-! How a run ends, and what it then has to hand over. -/
namespace AgentPrompt.CommandLine

/-- What a successful command has to show. -/
inductive Outcome where
  | printed (text : String)
  | saved (path text : String)
  | audited (report : Audit.Report)
  deriving DecidableEq, Repr

inductive Ending where
  | version (command : Option Command)
  | help
  | misuse
  | failed (error : Error)
  | finished (outcome : Outcome)
  deriving DecidableEq, Repr

def programName : String := "toolprompt"

def programVersion : String := "0.1.0"

def helpText : String :=
  "Usage: toolprompt [OPTIONS] <COMMAND>\n\n" ++
  "Commands:\n" ++
  "  render  Compile the system prompt\n" ++
  "  tools   Print the formatted tool list\n" ++
  "  schema  Print the schema block of a single tool\n" ++
  "  check   Render the prompt and audit it\n" ++
  "  help    Print this message\n"

def outputFailed (fault : FileFault) : Error :=
  .badFile s!"failed to write output: {fault.message}"

def writeFailed (path : String) (fault : FileFault) : Error :=
  .badFile s!"failed to write prompt to '{path}': {fault.message}"

/-- Something that takes texts, on standard output or as the contents of a file, and tells why if it
does not take the whole of one. -/
structure Outlet (m : Type → Type) where
  print : (text : String) → m (Option FileFault)
  save : (path text : String) → m (Option FileFault)

namespace Ending

def ofResult : Except Error Outcome → Ending
  | .ok outcome => finished outcome
  | .error e => failed e

def reportText (r : Audit.Report) : String :=
  "Prompt Audit\n============\n" ++ Audit.Report.text r ++
    if Audit.Report.passed r then s!"\nAll {r.length} checks passed.\n" else ""

/-- The error that a run ends with. An audit that found problems is one. -/
def error? : Ending → Option Error
  | failed e => some e
  | finished (.audited r) =>
    if Audit.Report.passed r then none
    else some (.auditFailed (Audit.Report.failures r).length)
  | _ => none

def exitStatus (e : Ending) : Nat :=
  match e with
  | misuse => 2
  | e => (e.error?.map Error.exitStatus).getD 0

def output : Ending → String
  | version none => s!"{programName} {programVersion}\n"
  | version (some c) => s!"{programName}-{c.name} {programVersion}\n"
  | help => helpText
  | finished (.printed text) => text
  | finished (.audited r) => reportText r
  | _ => ""

def errorOutput (e : Ending) : String :=
  match e with
  | misuse => helpText
  | e => (e.error?.map fun error => s!"Error: {error.message}\n").getD ""

/-- The file that a run still has to write. -/
def pending? : Ending → Option (String × String)
  | finished (.saved path text) => some (path, text)
  | _ => none

/-- The ending of a run whose output is not taken. Only a prompt, a list or a block is missed: whether
the rest arrives makes no difference. -/
def refused (e : Ending) (fault : FileFault) : Ending :=
  match e with
  | finished (.printed _) => failed (outputFailed fault)
  | finished (.saved path _) => failed (writeFailed path fault)
  | e => e

/-- Hands over what an ending has to show. -/
def deliver {m : Type → Type} [Monad m] (out : Outlet m) (e : Ending) : m Ending := do
  let fault? ← match e.pending? with
    | some (path, text) => out.save path text
    | none => out.print e.output
  return fault?.elim e e.refused

end Ending
end AgentPrompt.CommandLine
