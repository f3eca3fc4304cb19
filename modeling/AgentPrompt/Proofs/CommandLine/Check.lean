import AgentPrompt.CommandLine.Run
import AgentPrompt.Proofs.Audit.Agreement

namespace AgentPrompt

namespace Context

def AboutTools : Fact → Prop
  | .toolList _ | .tools _ => True
  | _ => False

theorem toolList_record {d d' : Draft} {f : Fact} (hf : ¬ AboutTools f)
    (h : d.record f = .ok d') : d'.toolList = d.toolList := by
  cases f with
  | toolList text => exact absurd trivial hf
  | tools s => exact absurd trivial hf
  | _ =>
    obtain rfl := Except.ok.inj h
    rfl

theorem toolList_foldlM {facts : List Fact} (hfacts : ∀ f ∈ facts, ¬ AboutTools f)
    {d d' : Draft} (h : facts.foldlM Draft.record d = .ok d') : d'.toolList = d.toolList := by
  induction facts generalizing d with
  | nil =>
    obtain rfl := Except.ok.inj h
    rfl
  | cons f facts ih =>
    rw [List.foldlM_cons, Except.bind_eq_ok_iff] at h
    obtain ⟨d₁, hd, hmore⟩ := h
    have hf := toolList_record (hfacts f List.mem_cons_self) hd
    have hrest := ih (fun g hg => hfacts g (List.mem_cons_of_mem _ hg)) hmore
    exact hrest.trans hf

theorem toolList_finish {d : Draft} {c : Context} (h : d.finish = .ok c) :
    c.toolList = d.toolList := by
  simp only [Draft.finish] at h
  split at h
  · simp at h
  · simp at h
  · obtain rfl := Except.ok.inj h
    rfl

end Context

namespace CommandLine

section
variable {α β : Type} {t : FileTree} {d : WorkingDirectory}

theorem Inquiry.run_ofExcept (r : Except Error α) : (Inquiry.ofExcept r).run t d = r :=
  rfl

theorem Inquiry.run_bind_eq_ok {x : Inquiry α} {f : α → Inquiry β} {b : β} :
    (x >>= f).run t d = .ok b ↔ ∃ a, x.run t d = .ok a ∧ (f a).run t d = .ok b := by
  rw [run_bind]
  cases x.run t d <;> simp [Except.bind]

theorem Inquiry.run_map {x : Inquiry α} {f : α → β} :
    (f <$> x).run t d = (x.run t d).map f := by
  have hmap : f <$> x = x >>= fun a => pure (f a) := rfl
  rw [hmap, run_bind]
  cases x.run t d <;> rfl

theorem Inquiry.run_map_eq_ok {x : Inquiry α} {f : α → β} {b : β} :
    (f <$> x).run t d = .ok b ↔ ∃ a, x.run t d = .ok a ∧ f a = b := by
  rw [run_map, Except.map_eq_ok_iff]

end

variable {w : Surroundings} {options : PromptOptions} {t : FileTree}
  {directory : WorkingDirectory}

theorem toolList_knownFacts {s : Settings} {r : Registry} {project buildTool : String}
    {d : Context.Draft}
    (h : (knownFacts w project s r buildTool).foldlM Context.Draft.record {} = .ok d) :
    Tool.blockList r.tools = .ok d.toolList := by
  simp only [knownFacts, List.foldlM_cons, List.foldlM_nil, Context.Draft.record] at h
  simp only [Except.bind_eq_ok_iff, Except.ok.injEq, pure, Except.pure] at h
  obtain ⟨-, -, -, -, -, -, -, -, -, -, d', ⟨text, htext, rfl⟩, rfl⟩ := h
  exact htext

theorem not_aboutTools_optionalFacts (s : Settings) (rules : Option String) :
    ∀ f ∈ optionalFacts options s rules, ¬ Context.AboutTools f := by
  intro f hf
  simp only [optionalFacts, List.mem_append, Option.mem_toList, Option.map_eq_some_iff] at hf
  rcases hf with (((⟨_, -, rfl⟩ | ⟨_, -, rfl⟩) | ⟨_, -, rfl⟩) | ⟨_, -, rfl⟩) | ⟨_, -, rfl⟩ <;>
    exact id

/-- What inputs have gone through: the registry is the one given, there is a project, the facts make the
context, and the template is read last. -/
theorem gatherWith_eq_ok {s : Settings} {r : Registry} {inputs : Inputs}
    (h : (gatherWith w options s r).run t directory = .ok inputs) :
    inputs.registry = r ∧ (loadTemplate options s).run t directory = .ok inputs.template ∧
      ∃ project buildTool draft rules more, projectRoot w options = .ok project ∧
        (knownFacts w project s r buildTool).foldlM Context.Draft.record {} = .ok draft ∧
        (loadRules s).run t directory = .ok rules ∧
        (optionalFacts options s rules).foldlM Context.Draft.record draft = .ok more ∧
        more.finish = .ok inputs.context := by
  rw [gatherWith, Inquiry.run_bind_eq_ok] at h
  obtain ⟨project, hproject, h⟩ := h
  -- The build tool is named or looked for; what follows is the same.
  split at h <;>
  · simp only [Inquiry.run_bind_eq_ok, Inquiry.run_ofExcept, Except.bind_eq_ok_iff] at h
    obtain ⟨buildTool, -, draft, hdraft, rules, hrules, context, ⟨more, hmore, hfinish⟩, h⟩ := h
    obtain ⟨template, htemplate, h⟩ := h
    obtain rfl := Except.ok.inj h
    exact ⟨rfl, htemplate, project, buildTool, draft, rules, more, hproject, hdraft, hrules, hmore,
      hfinish⟩

theorem run_gatherWith {s : Settings} {r : Registry} {inputs : Inputs}
    (h : (gatherWith w options s r).run t directory = .ok inputs) :
    inputs.registry = r ∧ Tool.blockList r.tools = .ok inputs.context.toolList := by
  obtain ⟨hregistry, -, project, buildTool, draft, rules, more, -, hdraft, -, hmore, hfinish⟩ :=
    gatherWith_eq_ok h
  refine ⟨hregistry, ?_⟩
  have hlist := toolList_knownFacts hdraft
  rw [← Context.toolList_foldlM (not_aboutTools_optionalFacts s rules) hmore,
    ← Context.toolList_finish hfinish] at hlist
  exact hlist

/-- The inputs of a prompt hold the tools that every command finds, and their blocks. -/
theorem run_gather {inputs : Inputs} (h : (gather w options).run t directory = .ok inputs) :
    (registryOf options.sources).run t directory = .ok inputs.registry ∧
      Tool.blockList inputs.registry.tools = .ok inputs.context.toolList := by
  rw [gather, Inquiry.run_bind_eq_ok] at h
  obtain ⟨s, hs, h⟩ := h
  rw [Inquiry.run_bind_eq_ok] at h
  obtain ⟨r, hr, h⟩ := h
  obtain ⟨rfl, hlist⟩ := run_gatherWith h
  refine ⟨?_, hlist⟩
  rw [registryOf, Inquiry.run_bind_eq_ok]
  exact ⟨s, hs, hr⟩

theorem prefix_auditInputs {inputs : Inputs} {report : Audit.Report}
    (h : auditInputs inputs = .ok report) :
    Audit.auditTools inputs.context.toolList.toList inputs.registry.tools <+: report := by
  simp only [auditInputs] at h
  split at h
  · obtain ⟨output, -, h⟩ := Except.bind_eq_ok_iff.1 h
    obtain rfl := Except.ok.inj h
    exact List.prefix_append _ _
  · obtain rfl := Except.ok.inj h
    exact List.prefix_append _ _

/-- A check reports on the tool list first. -/
theorem run_check {report : Audit.Report}
    (h : ((Request.check options).perform w).run t directory = .ok (.audited report)) :
    ∃ (r : Registry) (text : String), (registryOf options.sources).run t directory = .ok r ∧
      Tool.blockList r.tools = .ok text ∧ Audit.auditTools text.toList r.tools <+: report := by
  rw [Request.perform, Inquiry.run_bind_eq_ok] at h
  obtain ⟨inputs, hinputs, h⟩ := h
  obtain ⟨checks, hchecks, ho⟩ := Inquiry.run_map_eq_ok.1 h
  obtain rfl := Outcome.audited.inj ho
  obtain ⟨hr, hlist⟩ := run_gather hinputs
  exact ⟨inputs.registry, inputs.context.toolList, hr, hlist, prefix_auditInputs hchecks⟩

theorem exists_report {outcome : Outcome}
    (h : ((Request.check options).perform w).run t directory = .ok outcome) :
    ∃ report, outcome = .audited report := by
  rw [Request.perform, Inquiry.run_bind_eq_ok] at h
  obtain ⟨inputs, -, h⟩ := h
  obtain ⟨report, -, rfl⟩ := Inquiry.run_map_eq_ok.1 h
  exact ⟨report, rfl⟩

theorem run_tools {sources : Sources} {r : Registry} {text : String}
    (hr : (registryOf sources).run t directory = .ok r) (h : Tool.blockList r.tools = .ok text) :
    ((Request.tools sources).perform w).run t directory = .ok (.printed text) := by
  rw [Request.perform, Inquiry.run_bind_eq_ok]
  exact ⟨r, hr, Inquiry.run_map_eq_ok.2 ⟨text, h, rfl⟩⟩

/-- The headings and the markup of a formatted list always pass its audit. The other checks pass where
no free text misleads the search for headings or for fences and no schema nests too deep. The list
that is checked is the one that is printed. -/
theorem auditTools_blockList {tools : List Tool} {text : String}
    (h : Tool.blockList tools = .ok text) :
    (Audit.auditTools text.toList tools).Passes .toolOrder ∧
    (Audit.auditTools text.toList tools).Passes .legacyMarkup ∧
    (Audit.Unquoted tools →
      (Audit.auditTools text.toList tools).Passes .examples ∧
      (Audit.Unfenced tools → (∀ tool ∈ tools, tool.Readable) →
        (Audit.auditTools text.toList tools).passed)) ∧
    ∀ (w : Surroundings) (options : PromptOptions) (t : FileTree)
      (directory : WorkingDirectory) (r : Registry), (registryOf options.sources).run t directory = .ok r → r.tools = tools →
      ((Request.tools options.sources).perform w).run t directory = .ok (.printed text) ∧
      ∀ report, ((Request.check options).perform w).run t directory = .ok (.audited report) →
        Audit.auditTools text.toList tools <+: report := by
  obtain ⟨parts, hparts, hf, htext⟩ := Audit.blockList_eq_ok h
  refine ⟨?_, ?_, fun hu => ⟨?_, fun hfree hd => ?_⟩, fun w options t directory r hr hrt => ?_⟩
  · rw [htext, ← hparts]
    exact Audit.passes_toolOrder hf
  · rw [htext, ← hparts]
    exact Audit.passes_legacyMarkup hf
  · subst hparts
    rw [htext]
    exact Audit.passes_examples hf hu
  · subst hparts
    rw [htext]
    exact Audit.passed_listText hf hu hfree hd
  · rw [← hrt] at h
    refine ⟨run_tools hr h, fun report hcheck => ?_⟩
    obtain ⟨r', text', hr', htext', hprefix⟩ := run_check hcheck
    obtain rfl := Except.ok.inj (hr.symm.trans hr')
    obtain rfl := Except.ok.inj (h.symm.trans htext')
    rw [← hrt]
    exact hprefix

/-- An example that quotes the heading of the next tool, to no effect. -/
def quotingTools : List Tool :=
  [{ name := "a", examples := ["## b"] }, { name := "b" }]

def quotingSurroundings : Surroundings :=
  { directory := "/", shell := none, system := "linux", now := ⟨0, 0⟩ }

def quotingOptions : PromptOptions :=
  { sources := { tools := some "c" }, template := some "t" }

def quotingFiles : FileTree :=
  ⟨[(["c".toList],
      .file (some "tools: [\x7bname: a, examples: [\"## b\"]\x7d, \x7bname: b\x7d]")),
    (["t".toList], .file (some ""))]⟩

theorem auditTools_blockList_quotingTools :
    ∃ text report, Tool.blockList quotingTools = .ok text ∧
      (Audit.auditTools text.toList quotingTools).passed ∧
      ((Request.tools quotingOptions.sources).perform quotingSurroundings).run quotingFiles "/" =
        .ok (.printed text) ∧
      ((Request.check quotingOptions).perform quotingSurroundings).run quotingFiles "/" =
        .ok (.audited report) ∧
      Audit.auditTools text.toList quotingTools <+: report := by
  have htools : ((registryOf quotingOptions.sources).run quotingFiles "/").toOption.map (·.tools) =
      some quotingTools := by
    decide +kernel
  have hruns : (((Request.check quotingOptions).perform quotingSurroundings).run
      quotingFiles "/").isOk = true := by
    decide +kernel
  obtain ⟨outcome, houtcome⟩ := Except.exists_eq_ok_of_isOk hruns
  obtain ⟨report, rfl⟩ := exists_report houtcome
  obtain ⟨r, text, hr, hlist, -⟩ := run_check houtcome
  have hrt : r.tools = quotingTools := by
    rw [hr] at htools
    exact Option.some.inj htools
  rw [hrt] at hlist
  have hunquoted : Audit.Unquoted quotingTools := by decide +kernel
  have hunfenced : Audit.Unfenced quotingTools := by decide +kernel
  have hreadable : ∀ tool ∈ quotingTools, tool.Readable := by decide +kernel
  obtain ⟨-, -, hpassed, hcheck⟩ := auditTools_blockList hlist
  obtain ⟨hprinted, hprefix⟩ := hcheck quotingSurroundings quotingOptions quotingFiles "/" r hr hrt
  exact ⟨text, report, hlist, (hpassed hunquoted).2 hunfenced hreadable, hprinted, houtcome,
    hprefix report houtcome⟩

/-- Tools whose texts mislead the audit: a fence in a description, the next heading in a description,
and both in an example. -/
def misleadingTools : List (List Tool) :=
  [[{ name := "a", description := "```json\nx" }],
    [{ name := "a", description := "## b" }, { name := "b" }],
    [{ name := "a", examples := ["## b\n```json\nx"] }, { name := "b" }]]

theorem blockList_misleadingTools {tools : List Tool} (h : tools ∈ misleadingTools) :
    ∃ text, Tool.blockList tools = .ok text ∧
      (Audit.auditTools text.toList tools).passed = false := by
  have hruns : ∀ tools ∈ misleadingTools, (Tool.blockList tools).isOk = true := by decide +kernel
  have hbare : ∀ tools ∈ misleadingTools, ∀ t ∈ tools, t.parameters = [] := by decide +kernel
  have hfails : ∀ tools ∈ misleadingTools,
      (Audit.auditTools (Audit.listText (tools.map fun t => (t, []))) tools).passed = false := by
    decide +kernel
  obtain ⟨text, htext⟩ := Except.exists_eq_ok_of_isOk (hruns tools h)
  obtain ⟨parts, hparts, hf, hlist⟩ := Audit.blockList_eq_ok htext
  refine ⟨text, htext, ?_⟩
  rw [hlist, hf.eq_of_bare (hparts ▸ hbare tools h), hparts]
  exact hfails tools h

theorem not_forall_passed_blockList :
    ¬ ∀ (tools : List Tool) (text : String), Tool.blockList tools = .ok text →
      (Audit.auditTools text.toList tools).passed = true := by
  intro h
  obtain ⟨text, htext, hfails⟩ := blockList_misleadingTools List.mem_cons_self
  rw [h _ text htext] at hfails
  exact Bool.noConfusion hfails

end CommandLine
end AgentPrompt
