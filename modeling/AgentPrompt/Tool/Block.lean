import AgentPrompt.Tool.Schema
import AgentPrompt.Markup

/-! A tool's block in a prompt: a heading, the description, the schema on one line, and an example
call. Blocks of a list are set apart by one blank line. -/
namespace AgentPrompt.Tool

/-- The line before an example call. -/
def exampleHeading : String := "**Example:**"

def blockSeparator : String := "\n\n"

/-- The value that stands for a parameter in an example nobody wrote. -/
def Resolved.sample (r : Resolved) : Json :=
  match r.default with
  | some v => v
  | none =>
    match r.type with
    | .primitive .string => .string "example"
    | .primitive .integer | .primitive .number => .ofNat 0
    | .primitive .boolean => .bool false
    | .object => .object []
    | .array _ => .array []

/-- An example call with every required parameter. -/
def sampleCall (parameters : List Resolved) : Json :=
  .object ((parameters.filter (·.parameter.required)).map fun r => (r.parameter.name, r.sample))

/-- The first written example that is not blank, without the blanks around it. -/
def writtenExample? (t : Tool) : Option (List Char) :=
  (t.examples.map fun e => Text.trim e.toList).find? fun e => !e.isEmpty

def exampleText (t : Tool) (parameters : List Resolved) : List Char :=
  t.writtenExample?.getD (sampleCall parameters).chars

def fence : String := "```json\n"

def descriptionLines (t : Tool) : List Char :=
  let text := Text.trim t.description.toList
  if text.isEmpty then [] else text ++ ['\n']

def blockText (t : Tool) (parameters : List Resolved) : List Char :=
  "## ".toList ++ t.name.toList ++ ['\n'] ++ t.descriptionLines ++ ['\n'] ++ fence.toList ++
    (schemaValue t parameters).chars ++ "\n```\n\n".toList ++ exampleHeading.toList ++
    "\n/".toList ++ t.name.toList ++ ['\n'] ++ fence.toList ++ t.exampleText parameters ++
    "\n```".toList

/-- The block's text. A block that would carry legacy markup is refused. -/
def block (t : Tool) : Except Error String :=
  match t.resolve with
  | .error fault => .error (t.invalid fault)
  | .ok parameters =>
    let text := t.blockText parameters
    match Markup.findLegacy? text with
    | some marker => .error (t.invalid (.legacyMarkup marker))
    | none => .ok (String.ofList text)

/-- The blocks of all tools in order; the first unusable tool spoils the list. -/
def blockList (tools : List Tool) : Except Error String := do
  let blocks ← tools.mapM block
  return blockSeparator.intercalate blocks

end AgentPrompt.Tool
