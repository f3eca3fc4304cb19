import AgentPrompt.CommandLine.Run
import Std.Time.DateTime.Timestamp

/-! The program: it answers the questions of a command from the system, prints, and writes. -/
namespace AgentPrompt.Main

open CommandLine

/-- The number that the system gives an error, and its words for it. -/
def numberAndWords : IO.Error → UInt32 × String
  | .alreadyExists _ code words | .interrupted _ code words | .noFileOrDirectory _ code words
  | .invalidArgument _ code words | .permissionDenied _ code words
  | .resourceExhausted _ code words | .inappropriateType _ code words
  | .noSuchThing _ code words => (code, words)
  | .otherError code words | .resourceBusy code words | .resourceVanished code words
  | .unsupportedOperation code words | .hardwareFault code words
  | .unsatisfiedConstraints code words | .illegalOperation code words
  | .protocolError code words | .timeExpired code words => (code, words)
  | .unexpectedEof => (0, "unexpected end of file")
  | .userError message => (0, message)

def faultOf (e : IO.Error) : FileFault :=
  let (code, words) := numberAndWords e
  -- Some calls report a number with its sign turned.
  match (min code (-code)).toNat with
  | 0 => .other words
  | 2 => .missing
  | 20 => .notDirectory
  | 21 => .isDirectory
  | 22 => .zeroInPath
  | 36 => .nameTooLong
  | number => .other s!"{words.capitalize} (os error {number})"

def attempt {α : Type} (act : IO α) : IO (Except FileFault α) := do
  try
    return .ok (← act)
  catch e => return .error (faultOf e)

def readText (path : String) : IO (Except FileFault String) := do
  let content ← attempt (IO.FS.readBinFile path)
  return content.bind fun bytes =>
    match String.fromUTF8? bytes with
    | some text => .ok text
    | none => .error .notText

/-- Where the system has its devices. Nothing there is a plain file. -/
def devicePlace : String := "/dev/"

/-- Whether a path leads to a file, be it one that may not be read. Only a directory has a place `.`
in it. -/
def isFile (path : String) : IO Bool := do
  match ← attempt (IO.FS.realPath path), ← attempt (IO.FS.realPath (path ++ "/.")) with
  | .ok place, .error _ => return !(toString place).startsWith devicePlace
  | _, _ => return false

def answer {α : Type} : Inquiry α → IO (Except Error α)
  | .done r => return r
  | .readText path next => do answer (next (← readText path))
  | .isFile path next => do answer (next (← isFile path))

/-- The system and the architecture that the program is built for. -/
def buildTarget : String := "linux x86_64"

def surroundings : IO Surroundings := do
  let now ← Std.Time.Timestamp.now
  -- Why there is no working directory is not passed on; it has been removed.
  let directory := (← attempt IO.currentDir).mapError fun _ => FileFault.missing
  return {
    directory := directory.map toString
    shell := ← IO.getEnv "SHELL"
    system := buildTarget
    now := { seconds := now.toSecondsSinceUnixEpoch.val } }

def perform (request : Request) : IO (Except Error Outcome) := do
  answer (request.perform (← surroundings))

/-- Why something was not taken. -/
def faultIn (act : IO Unit) : IO (Option FileFault) := do
  match ← attempt act with
  | .ok _ => return none
  | .error fault => return some fault

def outlet : Outlet IO where
  print text := faultIn do
    let out ← IO.getStdout
    out.putStr text
    out.flush
  save path text := faultIn <| IO.FS.withFile path .write fun file => do
    file.putStr text
    file.flush

end AgentPrompt.Main

def main (args : List String) : IO UInt32 := do
  let e ← AgentPrompt.CommandLine.program AgentPrompt.Main.perform AgentPrompt.Main.outlet args
  IO.eprint e.errorOutput
  return UInt32.ofNat e.exitStatus
