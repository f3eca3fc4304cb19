import AgentPrompt.Proofs.CommandLine.Agreement

namespace AgentPrompt

theorem Error.exitStatus_ne_zero (e : Error) : e.exitStatus ≠ 0 := by
  cases e <;> simp [exitStatus]

namespace CommandLine

theorem Inquiry.run_bind_eq_error {α β : Type} {t : FileTree} {d : WorkingDirectory} {x : Inquiry α}
    {f : α → Inquiry β} {e : Error} :
    (x >>= f).run t d = .error e ↔
      x.run t d = .error e ∨ ∃ a, x.run t d = .ok a ∧ (f a).run t d = .error e := by
  rw [run_bind]
  exact Except.bind_eq_error_iff

namespace Request

/-- The text that a request is for. A check is for its report. -/
def text (w : Surroundings) : Request → Inquiry String
  | .render options _ => renderPrompt w options
  | .tools sources => do
    let r ← registryOf sources
    Inquiry.ofExcept (Tool.blockList r.tools)
  | .schema name sources => do
    let r ← registryOf sources
    Inquiry.ofExcept do (← r.get name).block
  | .check options => do
    let inputs ← gather w options
    Ending.reportText <$> Inquiry.ofExcept (auditInputs inputs)

/-- Where a text is to go: into a file if the request names one. -/
def outcome (r : Request) (text : String) : Outcome :=
  match r with
  | .render _ (some path) => .saved path text
  | _ => .printed text

variable {w : Surroundings} {t : FileTree} {r : Request} {text : String} {e : Error}

theorem run_perform (hr : ∀ options, r ≠ .check options) (d : WorkingDirectory) :
    (r.perform w).run t d = ((r.text w).run t d).map r.outcome := by
  cases r with
  | render options output => cases output <;> exact Inquiry.run_map
  | tools sources =>
    simp only [perform, Request.text, Inquiry.run_bind, Inquiry.run_map]
    cases (registryOf sources).run t d <;> rfl
  | schema name sources =>
    simp only [perform, Request.text, Inquiry.run_bind, Inquiry.run_map]
    cases (registryOf sources).run t d <;> rfl
  | check options => exact absurd rfl (hr options)

theorem ending_eq_finished_iff (hr : ∀ options, r ≠ .check options) :
    r.ending w t = .finished (r.outcome text) ↔ (r.text w).run t w.directory = .ok text := by
  have hinj : ∀ a b, r.outcome a = r.outcome b → a = b := by
    intro a b h
    unfold outcome at h
    split at h
    · exact (Outcome.saved.inj h).2
    · exact Outcome.printed.inj h
  rw [ending, run_perform hr]
  cases (r.text w).run t w.directory with
  | error e => simp [Except.map, Ending.ofResult]
  | ok other =>
    simp only [Except.map, Ending.ofResult, Ending.finished.injEq, Except.ok.injEq]
    exact ⟨hinj _ _, congrArg r.outcome⟩

theorem ending_eq_failed_iff (hr : ∀ options, r ≠ .check options) :
    r.ending w t = .failed e ↔ (r.text w).run t w.directory = .error e := by
  rw [ending, run_perform hr]
  cases (r.text w).run t w.directory <;> simp [Except.map, Ending.ofResult]

/-- A request finishes with its text or fails. -/
theorem ending_cases (w : Surroundings) (t : FileTree) (hr : ∀ options, r ≠ .check options) :
    (∃ text, (r.text w).run t w.directory = .ok text ∧
      r.ending w t = .finished (r.outcome text)) ∨ ∃ e, r.ending w t = .failed e := by
  cases h : (r.text w).run t w.directory with
  | ok text => exact Or.inl ⟨text, rfl, (ending_eq_finished_iff hr).2 h⟩
  | error e => exact Or.inr ⟨e, (ending_eq_failed_iff hr).2 h⟩

end Request
end CommandLine
end AgentPrompt
