import AgentPrompt.Audit.Report
import AgentPrompt.Text.Lines
import AgentPrompt.Text.Search
import AgentPrompt.Tool.Block
import AgentPrompt.Json.Reader

/-! The sections of a tool list: each begins at the heading of its tool and ends where the next
tool's begins. -/
namespace AgentPrompt.Audit

/-- The line that opens a tool's section, with its line feed. -/
def header (t : Tool) : List Char :=
  "## ".toList ++ t.name.toList ++ ['\n']

/-- Cuts a text around the first occurrence of `part` at the start of a line. `fresh` tells whether
the text itself starts a line. Occurrences are searched without overlap, so `skip` characters of
one that stands inside a line are passed over first. -/
def cutAt (part : List Char) (skip : Nat) (fresh : Bool) :
    List Char → Option (List Char × List Char)
  | [] => none
  | c :: rest =>
    let later := fun skip =>
      (cutAt part skip (c == '\n') rest).map fun p => (c :: p.1, p.2)
    match skip with
    | skip + 1 => later skip
    | 0 =>
      if part.isPrefixOf (c :: rest) then
        if fresh then some ([], (c :: rest).drop part.length) else later (part.length - 1)
      else later 0

/-- Finds the headers one after the other. Returns the text before the first and the section of
each, which starts with its header. -/
def sectionsAfter : List (List Char) → List Char → Option (List Char × List (List Char))
  | [], s => some (s, [])
  | h :: headers, s => do
    let (before, after) ← cutAt h 0 true s
    let (body, more) ← sectionsAfter headers after
    return (before, (h ++ body) :: more)

/-- The section of each tool, if the headers of all of them stand in the text in this order. -/
def sections (s : List Char) (tools : List Tool) : Option (List (List Char)) :=
  (sectionsAfter (tools.map header) s).map Prod.snd

/-- The line that opens a fenced block of JSON. -/
def fenceLine : List Char := "```json".toList

/-- The line after the first one that opens a fence. -/
def schemaLine (sectionText : List Char) : Except SchemaFault (List Char) :=
  match (Text.lines sectionText).dropWhile (· != fenceLine) with
  | [] => .error .noFence
  | [_] => .error .emptyFence
  | _ :: line :: _ => .ok line

/-- The schema of a section. -/
def readSchema (sectionText : List Char) : Except SchemaFault Json := do
  let line ← schemaLine sectionText
  match Json.readText line with
  | .ok v => .ok v
  | .error fault => .error (.notJson fault.message)

end AgentPrompt.Audit
