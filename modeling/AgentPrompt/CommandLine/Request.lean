import AgentPrompt.Locale

/-! What the command line can be asked to do, and reading a request from arguments. -/
namespace AgentPrompt.CommandLine

/-- Where the tools come from. -/
structure Sources where
  /-- The settings file; without it the one in the working directory is used, if there is one. -/
  config : Option String := none
  /-- The catalog; it takes the place of the one that the settings name. -/
  tools : Option String := none
  deriving DecidableEq, Repr

/-- What a prompt is made from. -/
structure PromptOptions where
  sources : Sources := {}
  template : Option String := none
  locale : Option Locale := none
  project : Option String := none
  currentFile : Option String := none
  deriving DecidableEq, Repr

inductive Request where
  | render (options : PromptOptions) (output : Option String)
  | tools (sources : Sources)
  | schema (name : String) (sources : Sources)
  | check (options : PromptOptions)
  deriving DecidableEq, Repr

/-- The commands by name. -/
inductive Command where
  | render
  | tools
  | schema
  | check
  deriving DecidableEq, Repr

def Command.name : Command → String
  | .render => "render"
  | .tools => "tools"
  | .schema => "schema"
  | .check => "check"

def Command.ofName? (s : String) : Option Command :=
  [render, tools, schema, check].find? fun c => c.name == s

/-- What the arguments of a run ask for. -/
inductive Invocation where
  | run (request : Request)
  | version (command : Option Command)
  | help
  | misuse
  deriving DecidableEq, Repr

/-- The options of the command line. -/
inductive Flag where
  | verbose
  | version
  | help
  | config
  | tools
  | template
  | locale
  | project
  | currentFile
  | output
  deriving DecidableEq, Repr

namespace Flag

/-- The letter of an option that has one. -/
def letter? : Flag → Option Char
  | verbose => some 'v'
  | version => some 'V'
  | help => some 'h'
  | config => some 'c'
  | tools => some 't'
  | locale => some 'l'
  | project => some 'p'
  | output => some 'o'
  | template | currentFile => none

def name : Flag → String
  | verbose => "verbose"
  | version => "version"
  | help => "help"
  | config => "config"
  | tools => "tools"
  | template => "template"
  | locale => "locale"
  | project => "project"
  | currentFile => "current-file"
  | output => "output"

/-- Options that take no value. -/
def isSwitch : Flag → Bool
  | verbose | version | help => true
  | _ => false

/-- Whether a value can be used: a path is not empty, and a locale is one that there is. -/
def accepts (f : Flag) (value : String) : Bool :=
  match f with
  | locale => (Locale.parse value).isOk
  | currentFile => true
  | _ => !value.isEmpty

end Flag

def generalFlags : List Flag := [.verbose, .version, .help]

/-- The options that a command knows. -/
def Command.flags : Command → List Flag
  | .tools | .schema => generalFlags ++ [.config, .tools]
  | .check =>
    generalFlags ++ [.config, .tools, .template, .locale, .project, .currentFile]
  | .render =>
    generalFlags ++ [.config, .tools, .template, .locale, .project, .currentFile, .output]

/-- How many arguments a command takes besides its options. -/
def Command.operands : Command → Nat
  | .schema => 1
  | _ => 0

/-- The options given so far, with their values, and the other arguments. -/
structure Given where
  flags : List (Flag × String) := []
  operands : List String := []

/-- Why the reading of arguments stops before their end. -/
inductive Stop where
  | version
  | help
  | misuse
  deriving DecidableEq, Repr

namespace Given

/-- Adds an option. None may be repeated, and its value must be acceptable. -/
def add (g : Given) (f : Flag) (value : String) : Except Stop Given :=
  if (g.flags.lookup f).isSome || !(f.isSwitch || f.accepts value) then .error .misuse
  else .ok { g with flags := g.flags ++ [(f, value)] }

/-- Adds an option without a value, or stops where it asks for the version or for help. -/
def switch (g : Given) (f : Flag) : Except Stop Given :=
  match f with
  | .version => .error .version
  | .help => .error .help
  | f => g.add f ""

def value? (g : Given) (f : Flag) : Option String :=
  g.flags.lookup f

end Given

/-- An argument as it is read by itself. -/
inductive Word where
  /-- Two dashes: no options follow. -/
  | divider
  | long (name : List Char) (value : Option (List Char))
  | letters (letters : List Char)
  | operand

/-- The text before the first equals sign and the one after it. -/
def splitValue (s : List Char) : List Char × Option (List Char) :=
  match s.dropWhile (· != '=') with
  | [] => (s, none)
  | _ :: value => (s.takeWhile (· != '='), some value)

/-- A dash alone is no option. -/
def Word.ofText : List Char → Word
  | ['-', '-'] => .divider
  | '-' :: '-' :: rest => let (name, value) := splitValue rest; .long name value
  | ['-'] => .operand
  | '-' :: rest => .letters rest
  | _ => .operand

def Word.isOperand : Word → Bool
  | .operand => true
  | _ => false

def findLong? (flags : List Flag) (name : List Char) : Option Flag :=
  flags.find? fun f => f.name.toList == name

def findLetter? (flags : List Flag) (letter : Char) : Option Flag :=
  flags.find? fun f => f.letter? == some letter

/-- Reads options that are written as letters after one dash. Returns the option that still waits
for its value, if there is one; what stands after its letter is its value. -/
def readLetters (flags : List Flag) (g : Given) : List Char → Except Stop (Given × Option Flag)
  | [] => .ok (g, none)
  | c :: rest =>
    match findLetter? flags c with
    | none => .error .misuse
    | some f =>
      if f.isSwitch then do readLetters flags (← g.switch f) rest
      else
        match rest with
        | [] => .ok (g, some f)
        | '=' :: value => do return (← g.add f (String.ofList value), none)
        | value => do return (← g.add f (String.ofList value), none)

/-- Reads an option with a long name. -/
def readLong (flags : List Flag) (g : Given) (name : List Char) (value : Option (List Char)) :
    Except Stop (Given × Option Flag) :=
  match findLong? flags name with
  | none => .error .misuse
  | some f =>
    match f.isSwitch, value with
    | true, none => do return (← g.switch f, none)
    | true, some _ => .error .misuse
    | false, none => .ok (g, some f)
    | false, some value => do return (← g.add f (String.ofList value), none)

/-- Reads the arguments of a command. `waiting` is an option whose value must come next, and
`mayOption` tells that options may still follow. -/
def readArguments (c : Command) (g : Given) (waiting : Option Flag) (mayOption : Bool) :
    List String → Except Stop Given
  | [] => if waiting.isSome then .error .misuse else .ok g
  | s :: rest =>
    let word := if mayOption then Word.ofText s.toList else .operand
    match waiting with
    | some f =>
      if word.isOperand then do readArguments c (← g.add f s) none mayOption rest
      else .error .misuse
    | none =>
      match word with
      | .divider => readArguments c g none false rest
      | .long name value => do
        let (g, waiting) ← readLong c.flags g name value
        readArguments c g waiting mayOption rest
      | .letters letters => do
        let (g, waiting) ← readLetters c.flags g letters
        readArguments c g waiting mayOption rest
      | .operand =>
        if g.operands.length < c.operands then
          readArguments c { g with operands := g.operands ++ [s] } none mayOption rest
        else .error .misuse

def Given.sources (g : Given) : Sources :=
  { config := g.value? .config, tools := g.value? .tools }

def Given.options (g : Given) : PromptOptions :=
  { sources := g.sources
    template := g.value? .template
    locale := (g.value? .locale).bind fun s => (Locale.parse s).toOption
    project := g.value? .project
    currentFile := g.value? .currentFile }

/-- The request that a command's arguments make. -/
def request? (c : Command) (g : Given) : Option Request :=
  match c, g.operands with
  | .render, _ => some (.render g.options (g.value? .output))
  | .tools, _ => some (.tools g.sources)
  | .schema, name :: _ => some (.schema name g.sources)
  | .schema, [] => none
  | .check, _ => some (.check g.options)

def Stop.invocation (command : Option Command) : Stop → Invocation
  | .version => .version command
  | .help => .help
  | .misuse => .misuse

def readCommand (c : Command) (args : List String) : Invocation :=
  match readArguments c {} none true args with
  | .error stop => stop.invocation (some c)
  | .ok g => ((request? c g).map Invocation.run).getD .misuse

/-- Help takes the name of a command, or nothing. -/
def readHelp : List String → Invocation
  | [] => .help
  | [s] => if s = "help" ∨ (Command.ofName? s).isSome then .help else .misuse
  | _ => .misuse

/-- Reads general options up to the command's name. -/
def readInvocation (g : Given) : List String → Invocation
  | [] => .misuse
  | s :: rest =>
    match Command.ofName? s with
    | some c => readCommand c rest
    | none =>
      if s = "help" then readHelp rest
      else
        let step := match Word.ofText s.toList with
          | .long name value => readLong generalFlags g name value
          | .letters letters => readLetters generalFlags g letters
          | _ => .error .misuse
        match step with
        | .ok (g, _) => readInvocation g rest
        | .error stop => stop.invocation none

/-- What the arguments of a run ask for. -/
def Invocation.ofArguments (args : List String) : Invocation :=
  readInvocation {} args

end AgentPrompt.CommandLine
