import AgentPrompt.Audit.ToolList
import AgentPrompt.Template.Compile

/-! The audit of a prompt: its template must name known variables only, and its text must carry no
legacy markup. Text that came from a variable may look like a placeholder. -/
namespace AgentPrompt.Audit

/-- The problems with a template whose names must pass `known`; `problem` reports the others. -/
def templateProblems (known : String → Bool) (problem : List String → Problem)
    (template : String) : List Problem :=
  match Template.placeholders template with
  | .error e => [.badTemplate e.message]
  | .ok names =>
    match names.filter fun n => !known n with
    | [] => []
    | missing => [problem missing]

/-- The checks of the prompt `output` against its template and variables. -/
def auditPrompt (template : String) (b : Bindings) (output : String) : Report :=
  [⟨.placeholders, templateProblems b.contains .unresolved template⟩, markupCheck output.toList]

end AgentPrompt.Audit
