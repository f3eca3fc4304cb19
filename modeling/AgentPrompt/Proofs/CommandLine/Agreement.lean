import AgentPrompt.Proofs.Audit.Placeholders
import AgentPrompt.Proofs.CommandLine.Check
import AgentPrompt.Proofs.Prompt.Variables

/-! A check compares the names of a template with the names that every context defines, and a
rendering looks them up in the variables of its context. These are the same names. -/
namespace AgentPrompt

theorem Template.exitStatus_of_compile {template : String} {b : Bindings} {e : Error}
    (h : Template.compile template b = .error e) : e.exitStatus = 3 := by
  cases hp : Template.pieces template.toList with
  | error other =>
    obtain ⟨⟨p, rfl⟩, -, hc⟩ := Template.exists_unterminated hp
    rw [hc b] at h
    obtain rfl := Except.error.inj h
    rfl
  | ok ps =>
    rcases Template.compile_cases hp b with ⟨-, text, hc⟩ | ⟨name, p, -, hc, -⟩
    · rw [hc] at h
      cases h
    · rw [hc] at h
      obtain rfl := Except.error.inj h
      rfl

namespace Audit

/-- The audit of a tool list does not look at names of variables. -/
theorem topic_of_mem_auditTools {s : List Char} {tools : List Tool} {c : Check}
    (h : c ∈ auditTools s tools) : c.topic ≠ .variables := by
  have hmarkup : (markupCheck s).topic = .legacyMarkup := rfl
  rw [auditTools] at h
  split at h
  · simp only [List.mem_cons, List.not_mem_nil, or_false] at h
    rcases h with rfl | rfl <;> simp [hmarkup]
  · simp only [List.mem_cons, List.not_mem_nil, or_false] at h
    rcases h with rfl | rfl | rfl | rfl | rfl | rfl <;> simp [hmarkup]

end Audit

namespace CommandLine

/-- How a request ends, before any file is written. -/
def Request.ending (w : Surroundings) (t : FileTree) (r : Request) : Ending :=
  Ending.ofResult ((r.perform w).run t w.directory)

theorem runOn_eq_deliver {args : List String} {r : Request}
    (hargs : Invocation.ofArguments args = .run r) (d : Devices) (w : Surroundings)
    (t : FileTree) :
    runOn d w t args = (r.ending w t).deliver (d.outlet w.directory) { files := t } := by
  simp only [runOn, program, hargs]
  rfl

theorem Ending.deliver_of_not_pending {e : Ending} (hp : e.pending? = none) (d : Devices)
    (directory : WorkingDirectory) (o : Outside) :
    e.deliver (d.outlet directory) o =
      ((d.print e.output o).1.elim e e.refused, (d.print e.output o).2) := by
  simp only [deliver, hp]
  rfl

theorem run_eq_ending {w : Surroundings} {t : FileTree} {args : List String} {r : Request}
    (hargs : Invocation.ofArguments args = .run r) (hp : (r.ending w t).pending? = none) :
    run w t args = (r.ending w t, t) := by
  rw [run, runOn_eq_deliver hargs, Ending.deliver_of_not_pending hp]
  rfl

theorem exitStatus_audited (r : Audit.Report) :
    (Ending.finished (.audited r)).exitStatus = if r.passed then 0 else 4 := by
  rw [Ending.exitStatus, Ending.error?]
  · split <;> rfl
  · nofun

/-! ## The two runs -/

section
variable (w : Surroundings) (t : FileTree) (options : PromptOptions)

theorem check_ending :
    (Request.check options).ending w t =
      .ofResult (((gather w options).run t w.directory).bind fun inputs =>
        (auditInputs inputs).map .audited) := by
  rw [Request.ending, Request.perform, Inquiry.run_bind]
  congr 2
  funext inputs
  rw [Inquiry.run_map]
  rfl

theorem render_ending :
    (Request.render options none).ending w t =
      .ofResult (((gather w options).run t w.directory).bind fun inputs =>
        (Prompt.renderWith inputs.context inputs.template).map .printed) := by
  rw [Request.ending, Request.perform, Inquiry.run_map, renderPrompt, Inquiry.run_bind]
  cases (gather w options).run t w.directory <;> rfl

theorem pending?_check : ((Request.check options).ending w t).pending? = none := by
  rw [check_ending]
  cases (gather w options).run t w.directory with
  | error e => rfl
  | ok inputs =>
    simp only [Except.bind]
    cases auditInputs inputs <;> rfl

theorem pending?_render : ((Request.render options none).ending w t).pending? = none := by
  rw [render_ending]
  cases (gather w options).run t w.directory with
  | error e => rfl
  | ok inputs =>
    simp only [Except.bind]
    cases Prompt.renderWith inputs.context inputs.template <;> rfl

end

/-! ## Gathered inputs -/

section
variable {inputs : Inputs}

theorem templateProblems_variableNames (problem : List String → Audit.Problem) :
    Audit.templateProblems (fun n => n ∈ Context.variableNames) problem inputs.template = [] ↔
      ∃ text, Prompt.renderWith inputs.context inputs.template = .ok text := by
  rw [← inputs.context.contains_bindings]
  exact Audit.templateProblems_contains_eq_nil_iff problem _

def nameCheck (inputs : Inputs) : Audit.Check :=
  ⟨.variables, Audit.templateProblems (fun n => n ∈ Context.variableNames) .unknownVariables
    inputs.template⟩

theorem nameCheck_passed_iff :
    (nameCheck inputs).passed = true ↔
      ∃ text, Prompt.renderWith inputs.context inputs.template = .ok text := by
  rw [Audit.Check.passed, List.isEmpty_iff]
  exact templateProblems_variableNames .unknownVariables

theorem nameCheck_failed {e : Error}
    (h : Prompt.renderWith inputs.context inputs.template = .error e) :
    (nameCheck inputs).passed = false := by
  rw [Bool.eq_false_iff]
  intro hp
  obtain ⟨text, htext⟩ := nameCheck_passed_iff.1 hp
  rw [h] at htext
  cases htext

theorem auditInputs_of_rendered {text : String}
    (h : Prompt.renderWith inputs.context inputs.template = .ok text) :
    auditInputs inputs = .ok
      (Audit.auditTools inputs.context.toolList.toList inputs.registry.tools ++
        nameCheck inputs :: Audit.auditPrompt inputs.template inputs.context.bindings text) := by
  have hnil := (templateProblems_variableNames .unknownVariables).2 ⟨text, h⟩
  simp only [auditInputs, hnil, h, nameCheck]
  rfl

theorem auditInputs_of_not_rendered {e : Error}
    (h : Prompt.renderWith inputs.context inputs.template = .error e) :
    auditInputs inputs = .ok
      (Audit.auditTools inputs.context.toolList.toList inputs.registry.tools ++
        [nameCheck inputs]) := by
  have hempty : (Audit.templateProblems (fun n => n ∈ Context.variableNames) .unknownVariables
      inputs.template).isEmpty = false := nameCheck_failed h
  simp only [auditInputs, hempty]
  rfl

end

/-- How a check and a rendering of the same gathered inputs end. -/
structure Agree (check render : Ending) (report : Audit.Report) : Prop where
  reports : check = .finished (.audited report)
  checkStatus : check.exitStatus = 0 ∨ check.exitStatus = 4
  renderStatus : render.exitStatus = 0 ∨ render.exitStatus = 3
  names : ∃ c, report.filter (fun c => c.topic = .variables) = [c] ∧
    (render.exitStatus = 3 ↔ c.passed = false)
  placeholders : report.Passes .variables → report.Passes .placeholders
  clean : check.exitStatus = 0 → ∃ text, render = .finished (.printed text) ∧
    render.exitStatus = 0 ∧ render.output = text ∧
    ∀ m ∈ Markup.legacyMarkers, ¬ m.toList <:+: text.toList

theorem filter_auditTools (s : List Char) (tools : List Tool) :
    (Audit.auditTools s tools).filter (fun c => c.topic = .variables) = [] := by
  rw [List.filter_eq_nil_iff]
  intro c hc
  simpa using Audit.topic_of_mem_auditTools hc

theorem exitStatus_audited_cases (r : Audit.Report) :
    (Ending.finished (.audited r)).exitStatus = 0 ∨
      (Ending.finished (.audited r)).exitStatus = 4 := by
  rw [exitStatus_audited]
  split
  · exact Or.inl rfl
  · exact Or.inr rfl

theorem agree_of_rendered {inputs : Inputs} {text : String}
    (h : Prompt.renderWith inputs.context inputs.template = .ok text) :
    ∃ report, auditInputs inputs = .ok report ∧
      Agree (.finished (.audited report)) (.finished (.printed text)) report := by
  refine ⟨_, auditInputs_of_rendered h, rfl, exitStatus_audited_cases _, Or.inl rfl,
    ⟨nameCheck inputs, ?_, ?_⟩, fun _ => ?_, fun hstatus => ⟨text, rfl, rfl, rfl, ?_⟩⟩
  · rw [List.filter_append, filter_auditTools]
    rfl
  · have hp := nameCheck_passed_iff.2 ⟨text, h⟩
    constructor
    · intro hstatus
      cases hstatus
    · intro hfail
      rw [hp] at hfail
      cases hfail
  · obtain ⟨c, hc, hpasses⟩ :=
      (Audit.passes_placeholders_iff inputs.template inputs.context.bindings text).2 ⟨text, h⟩
    exact ⟨c, List.mem_append_right _ (List.mem_cons_of_mem _ hc), hpasses⟩
  · rw [exitStatus_audited] at hstatus
    split at hstatus
    · rename_i hall
      have hmarkup : (Audit.markupCheck text.toList).passed := by
        refine List.all_eq_true.1 hall _ (List.mem_append_right _ ?_)
        simp [Audit.auditPrompt]
      exact Audit.markupCheck_passed hmarkup
    · cases hstatus

theorem agree_of_not_rendered {inputs : Inputs} {e : Error}
    (h : Prompt.renderWith inputs.context inputs.template = .error e) :
    ∃ report, auditInputs inputs = .ok report ∧
      Agree (.finished (.audited report)) (.failed e) report := by
  have hfail := nameCheck_failed h
  have hstatus : (Ending.failed e).exitStatus = 3 := Template.exitStatus_of_compile h
  have hfilter : (Audit.auditTools inputs.context.toolList.toList inputs.registry.tools ++
      [nameCheck inputs]).filter (fun c => c.topic = .variables) = [nameCheck inputs] := by
    rw [List.filter_append, filter_auditTools]
    rfl
  refine ⟨_, auditInputs_of_not_rendered h, rfl, exitStatus_audited_cases _, Or.inr hstatus,
    ⟨nameCheck inputs, hfilter, iff_of_true hstatus hfail⟩, ?_, fun hzero => ?_⟩
  · rintro ⟨c, hc, htopic, hpasses⟩
    have hone : c ∈ [nameCheck inputs] := by
      rw [← hfilter]
      exact List.mem_filter.2 ⟨hc, by simpa using htopic⟩
    rw [List.mem_singleton.1 hone, hfail] at hpasses
    cases hpasses
  · rw [exitStatus_audited] at hzero
    split at hzero
    · rename_i hall
      have hpassed := List.all_eq_true.1 hall (nameCheck inputs)
        (List.mem_append_right _ List.mem_cons_self)
      rw [hfail] at hpassed
      cases hpassed
    · cases hzero

/-- A check and a rendering with the same options see the same inputs. Without inputs both fail with
the same error and print nothing. With inputs a check reports, and a rendering fails exactly if the
check finds an unknown name or an open placeholder in the template. -/
theorem check_agrees_with_render (w : Surroundings) (t : FileTree) (options : PromptOptions) :
    (∀ args, Invocation.ofArguments args = .run (.check options) →
      run w t args = ((Request.check options).ending w t, t)) ∧
    (∀ args, Invocation.ofArguments args = .run (.render options none) →
      run w t args = ((Request.render options none).ending w t, t)) ∧
    (∀ e, (gather w options).run t w.directory = .error e →
      ∀ r ∈ [Request.check options, Request.render options none],
        (r.ending w t).exitStatus = e.exitStatus ∧
        (r.ending w t).errorOutput = s!"Error: {e.message}\n" ∧ (r.ending w t).output = "") ∧
    ∀ inputs, (gather w options).run t w.directory = .ok inputs →
      ∃ report, Agree ((Request.check options).ending w t)
        ((Request.render options none).ending w t) report := by
  refine ⟨fun args h => run_eq_ending h (pending?_check w t options),
    fun args h => run_eq_ending h (pending?_render w t options), fun e h => ?_, fun inputs h => ?_⟩
  · have hcheck : (Request.check options).ending w t = .failed e := by
      rw [check_ending, h]
      rfl
    have hrender : (Request.render options none).ending w t = .failed e := by
      rw [render_ending, h]
      rfl
    simp only [List.mem_cons, List.not_mem_nil, or_false, forall_eq_or_imp, forall_eq, hcheck,
      hrender]
    exact ⟨⟨rfl, rfl, rfl⟩, rfl, rfl, rfl⟩
  · rw [check_ending, render_ending, h]
    simp only [Except.bind]
    cases hrender : Prompt.renderWith inputs.context inputs.template with
    | ok text =>
      obtain ⟨report, hreport, hagree⟩ := agree_of_rendered hrender
      rw [hreport]
      exact ⟨report, hagree⟩
    | error e =>
      obtain ⟨report, hreport, hagree⟩ := agree_of_not_rendered hrender
      rw [hreport]
      exact ⟨report, hagree⟩

def unknownNameFiles : FileTree :=
  ⟨[(["t".toList], .file (some "\x7b\x7btask\x7d\x7d"))]⟩

/-- An unknown name fails a rendering and a check, each in its own way; a template that is not there
fails both alike. -/
theorem check_agrees_with_render_at_unknown_name :
    (run quotingSurroundings unknownNameFiles ["render", "--template", "t"]).1.exitStatus = 3 ∧
    (run quotingSurroundings unknownNameFiles ["check", "--template", "t"]).1.exitStatus = 4 ∧
    ∃ e : Error, ∀ args ∈ [["render", "--template", "u"], ["check", "--template", "u"]],
      (run quotingSurroundings unknownNameFiles args).1.exitStatus = e.exitStatus ∧
      (run quotingSurroundings unknownNameFiles args).1.output = "" := by
  obtain ⟨hcheck, hrender, -, hok⟩ := check_agrees_with_render quotingSurroundings
    unknownNameFiles { template := some "t" }
  obtain ⟨hcheck', hrender', herror, -⟩ := check_agrees_with_render quotingSurroundings
    unknownNameFiles { template := some "u" }
  have hthree : ((Request.render { template := some "t" } none).ending quotingSurroundings
      unknownNameFiles).exitStatus = 3 := by
    decide +kernel
  have hgathers : ((gather quotingSurroundings { template := some "t" }).run unknownNameFiles
      "/").isOk = true := by
    decide +kernel
  have hfails : ((gather quotingSurroundings { template := some "u" }).run unknownNameFiles
      "/").isOk = false := by
    decide +kernel
  obtain ⟨inputs, hinputs⟩ := Except.exists_eq_ok_of_isOk hgathers
  obtain ⟨report, hagree⟩ := hok inputs hinputs
  obtain ⟨e, he⟩ : ∃ e, (gather quotingSurroundings { template := some "u" }).run
      unknownNameFiles "/" = .error e := by
    cases h : (gather quotingSurroundings { template := some "u" }).run unknownNameFiles "/" with
    | error e => exact ⟨e, rfl⟩
    | ok inputs =>
      rw [h] at hfails
      cases hfails
  have hboth := herror e he
  have hrender := hrender ["render", "--template", "t"] (by decide +kernel)
  have hcheck := hcheck ["check", "--template", "t"] (by decide +kernel)
  have hrender' := hrender' ["render", "--template", "u"] (by decide +kernel)
  have hcheck' := hcheck' ["check", "--template", "u"] (by decide +kernel)
  simp only [List.mem_cons, List.not_mem_nil, or_false, forall_eq_or_imp, forall_eq] at hboth ⊢
  rw [hrender, hcheck, hrender', hcheck']
  -- The endings are not to be computed again.
  generalize (Request.render { template := some "t" } none).ending quotingSurroundings
    unknownNameFiles = render at hthree hagree ⊢
  generalize (Request.check { template := some "t" }).ending quotingSurroundings
    unknownNameFiles = check at hagree ⊢
  generalize (Request.render { template := some "u" } none).ending quotingSurroundings
    unknownNameFiles = render' at hboth ⊢
  generalize (Request.check { template := some "u" }).ending quotingSurroundings
    unknownNameFiles = check' at hboth ⊢
  obtain ⟨⟨hstatus, -, houtput⟩, hstatus', -, houtput'⟩ := hboth
  refine ⟨hthree, ?_, e, ⟨hstatus', houtput'⟩, hstatus, houtput⟩
  refine hagree.checkStatus.resolve_left fun hzero => ?_
  obtain ⟨text, -, hsuccess, -⟩ := hagree.clean hzero
  rw [hthree] at hsuccess
  cases hsuccess

end CommandLine
end AgentPrompt
