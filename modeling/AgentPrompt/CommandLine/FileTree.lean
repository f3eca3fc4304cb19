import AgentPrompt.Path

/-! Files and directories, found by path. -/
namespace AgentPrompt.CommandLine

/-- Why a file cannot be read or written. -/
inductive FileFault where
  | missing
  | isDirectory
  | notDirectory
  | nameTooLong
  | notText
  | zeroInPath
  | other (message : String)
  deriving DecidableEq, Repr

def FileFault.message : FileFault → String
  | .missing => "No such file or directory (os error 2)"
  | .isDirectory => "Is a directory (os error 21)"
  | .notDirectory => "Not a directory (os error 20)"
  | .nameTooLong => "File name too long (os error 36)"
  | .notText => "stream did not contain valid UTF-8"
  | .zeroInPath => "file name contained an unexpected NUL byte"
  | .other message => message

inductive Entry where
  /-- A file with its text, or with bytes that are no text. -/
  | file (text : Option String)
  | directory
  deriving DecidableEq, Repr

/-- A place in the tree: the names that lead there from the root. -/
abbrev Place := List (List Char)

/-- The working directory, or why it cannot be told. -/
abbrev WorkingDirectory := Except FileFault String

instance : Coe String WorkingDirectory :=
  ⟨.ok⟩

structure FileTree where
  entries : List (Place × Entry) := []

namespace FileTree

/-- What stands at a place. Places above others are directories, and so is the root. -/
def entry? (t : FileTree) (p : Place) : Option Entry :=
  match t.entries.lookup p with
  | some e => some e
  | none =>
    if p.isEmpty || t.entries.any fun e => p.isPrefixOf e.1 then some .directory else none

/-- Puts an entry at a place. -/
def put (t : FileTree) (p : Place) (e : Entry) : FileTree :=
  ⟨(p, e) :: t.entries.filter fun other => other.1 != p⟩

def byteLength (s : List Char) : Nat :=
  s.foldl (fun n c => n + c.utf8Size) 0

/-- The longest name, and the length that a path must stay below, in bytes. -/
def nameLimit : Nat := 255

def pathLimit : Nat := 4096

/-- Follows names from a directory. Only the last may lead to a file or to nothing. -/
def follow (t : FileTree) (at_ : Place) : List (List Char) → Except FileFault Place
  | [] => .ok at_
  | name :: rest =>
    if Path.isIdle name then follow t at_ rest
    else if name == ['.', '.'] then follow t at_.dropLast rest
    else if nameLimit < byteLength name then .error .nameTooLong
    else
      let next := at_ ++ [name]
      match t.entry? next, rest with
      | some .directory, rest => follow t next rest
      | some (.file _), [] => .ok next
      | some (.file _), _ => .error .notDirectory
      | none, [] => .ok next
      | none, _ => .error .missing

/-- Where the working directory stands. It may have been removed. -/
def workingPlace (t : FileTree) : WorkingDirectory → Except FileFault Place
  | .error _ => .error .missing
  | .ok directory =>
    let place := (Path.segments directory.toList).filter fun s => !s.isEmpty
    if t.entry? place = some .directory then .ok place else .error .missing

/-- The names of a path, and where it starts: at the root or in the working directory. -/
def start (t : FileTree) (directory : WorkingDirectory) (path : List Char) :
    Except FileFault (Place × List (List Char)) :=
  if path.contains '\x00' then .error .zeroInPath
  else if path.isEmpty then .error .missing
  else if pathLimit ≤ byteLength path then .error .nameTooLong
  else
    let from_ := if Path.isAbsolute path then .ok [] else t.workingPlace directory
    from_.map fun place => (place, Path.segments path)

def locate (t : FileTree) (directory : WorkingDirectory) (path : String) :
    Except FileFault Place := do
  let (from_, names) ← t.start directory path.toList
  t.follow from_ names

def readText (t : FileTree) (directory : WorkingDirectory) (path : String) :
    Except FileFault String := do
  match t.entry? (← t.locate directory path) with
  | some (.file (some text)) => .ok text
  | some (.file none) => .error .notText
  | some .directory => .error .isDirectory
  | none => .error .missing

def isFile (t : FileTree) (directory : WorkingDirectory) (path : String) : Bool :=
  match (t.locate directory path).toOption.bind t.entry? with
  | some (.file _) => true
  | _ => false

/-- Writes a file, which must not be a directory and whose own directory must be there. -/
def writeText (t : FileTree) (directory : WorkingDirectory) (path text : String) :
    Except FileFault FileTree := do
  let (from_, names) ← t.start directory path.toList
  match names.getLast? with
  | some [] =>
    let above := ((names.reverse.dropWhile List.isEmpty).drop 1).reverse
    let _ ← t.follow from_ (above ++ [[]])
    .error .isDirectory
  | _ =>
    let place ← t.follow from_ names
    match t.entry? place with
    | some .directory => .error .isDirectory
    | _ => .ok (t.put place (.file (some text)))

end FileTree
end AgentPrompt.CommandLine
