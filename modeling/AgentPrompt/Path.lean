/-! Paths to files, as text with slashes between names. -/
namespace AgentPrompt.Path

/-- An absolute path starts at the root. -/
def isAbsolute (path : List Char) : Bool :=
  path.head? = some '/'

/-- The path that `path` names from `base`. -/
def join (base path : List Char) : List Char :=
  if isAbsolute path then path
  else if base.isEmpty || base.getLast? = some '/' then base ++ path
  else base ++ '/' :: path

/-- The names of a path; empty ones stand between two slashes and at its ends. -/
def segmentsFrom (start : List Char) : List Char → List (List Char)
  | [] => [start.reverse]
  | '/' :: rest => start.reverse :: segmentsFrom [] rest
  | c :: rest => segmentsFrom (c :: start) rest

def segments (path : List Char) : List (List Char) :=
  segmentsFrom [] path

/-- Whether a segment leaves a path where it is. -/
def isIdle (segment : List Char) : Bool :=
  segment.isEmpty || segment == ['.']

/-- Drops idle segments at the end. The path's first segment is kept, as it is the root or says
that the path is relative. -/
def dropIdle : List (List Char) → List (List Char)
  | [] => []
  | first :: rest => first :: (rest.reverse.dropWhile isIdle).reverse

/-- Segments with slashes between them; a path with nothing behind its root is the root. -/
def ofSegments : List (List Char) → List Char
  | [[]] => ['/']
  | segments => ['/'].intercalate segments

/-- The path without its last name, if it has one. -/
def parent? (path : List Char) : Option (List Char) :=
  match dropIdle (segments path) with
  | [] | [[]] => none
  | [_] => some []
  | kept => some (ofSegments (dropIdle kept.dropLast))

end AgentPrompt.Path
