/-! Text cut into lines. -/
namespace AgentPrompt.Text

/-- A line's text: a carriage return before its line feed is not part of it. -/
def dropReturn (line : List Char) : List Char :=
  if line.getLast? = some '\r' then line.dropLast else line

/-- Collects the lines of a text; `start` holds the line begun, last character first. -/
def linesFrom (start : List Char) : List Char → List (List Char)
  | [] => if start.isEmpty then [] else [start.reverse]
  | '\n' :: rest => dropReturn start.reverse :: linesFrom [] rest
  | c :: rest => linesFrom (c :: start) rest

/-- The lines of a text without their endings. A last line needs no line feed, and an empty one
after the last line feed is no line. -/
def lines (s : List Char) : List (List Char) :=
  linesFrom [] s

end AgentPrompt.Text
