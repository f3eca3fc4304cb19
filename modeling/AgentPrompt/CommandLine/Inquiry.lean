import AgentPrompt.Error
import AgentPrompt.CommandLine.FileTree

/-! Computations that look at files and may fail. They only ask questions; whoever runs them
answers from a tree of files or from the system. -/
namespace AgentPrompt.CommandLine

inductive Inquiry (α : Type) where
  | done (result : Except Error α)
  | readText (path : String) (next : Except FileFault String → Inquiry α)
  | isFile (path : String) (next : Bool → Inquiry α)

namespace Inquiry

variable {α β : Type}

def andThen (x : Inquiry α) (f : α → Inquiry β) : Inquiry β :=
  match x with
  | done (.ok a) => f a
  | done (.error e) => done (.error e)
  | readText path next => readText path fun r => (next r).andThen f
  | isFile path next => isFile path fun b => (next b).andThen f

instance : Monad Inquiry where
  pure a := done (.ok a)
  bind := andThen

/-- A result that is known without looking. -/
def ofExcept (r : Except Error α) : Inquiry α :=
  done r

/-- The answer that a tree of files gives, paths being taken from a working directory. -/
def run (t : FileTree) (directory : WorkingDirectory) : Inquiry α → Except Error α
  | done r => r
  | readText path next => (next (t.readText directory path)).run t directory
  | isFile path next => (next (t.isFile directory path)).run t directory

theorem run_bind (t : FileTree) (d : WorkingDirectory) (x : Inquiry α) (f : α → Inquiry β) :
    (x >>= f).run t d = (x.run t d).bind fun a => (f a).run t d := by
  show (x.andThen f).run t d = _
  induction x with
  | done r => cases r <;> rfl
  | readText path next ih => exact ih _
  | isFile path next ih => exact ih _

/-- Whether one of some paths is a file: the first of the pairs whose path is. -/
def firstFile? : List (String × β) → Inquiry (Option β)
  | [] => pure none
  | (path, value) :: rest => isFile path fun found =>
    if found then pure (some value) else firstFile? rest

/-- The text of a file; `what` names it in the error. -/
def text (what path : String) : Inquiry String :=
  readText path fun r => done <|
    match r with
    | .ok s => .ok s
    | .error fault => .error (.badFile s!"failed to read {what} '{path}': {fault.message}")

end Inquiry
end AgentPrompt.CommandLine
