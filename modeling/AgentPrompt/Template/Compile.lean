import AgentPrompt.Template.Piece
import AgentPrompt.Bindings

/-! Filling a template. Every placeholder is replaced by its variable's text in one pass, and that
text is not read again. -/
namespace AgentPrompt.Template

/-- The text of the pieces, or the first placeholder whose variable is missing. -/
def fill (b : Bindings) : List Piece → Except Error (List Char)
  | [] => .ok []
  | .literal text :: rest => (fill b rest).map (text ++ ·)
  | .placeholder name position _ :: rest =>
    match b.get? (String.ofList name) with
    | some value => (fill b rest).map (value.render.toList ++ ·)
    | none => .error (.unresolvedVariable (String.ofList name) position)

/-- Compiles a template; a placeholder that is never closed is reported first. -/
def compile (template : String) (b : Bindings) : Except Error String := do
  let ps ← pieces template.toList
  return String.ofList (← fill b ps)

/-- The names that pieces refer to, each once, in order of first occurrence. -/
def names (ps : List Piece) : List String :=
  (ps.filterMap Piece.name?).foldl (fun seen n => if n ∈ seen then seen else seen ++ [n]) []

/-- The names of a template's placeholders. -/
def placeholders (template : String) : Except Error (List String) :=
  (pieces template.toList).map names

end AgentPrompt.Template
