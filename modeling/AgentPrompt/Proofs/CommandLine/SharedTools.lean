import AgentPrompt.Proofs.CommandLine.Arguments
import AgentPrompt.Proofs.CommandLine.Endings
import AgentPrompt.Proofs.Tool.Faults
import AgentPrompt.Proofs.Tool.Selection

namespace AgentPrompt

def Error.IsInvalidTool : Error → Prop
  | .invalidTool .. => True
  | _ => False

namespace Tool

/-- A tool whose name nobody else has is found by its name. -/
theorem named_of_mem {tools : List Tool} (h : (tools.map (·.name)).Nodup) {tool : Tool}
    (ht : tool ∈ tools) : named tools tool.name = .ok tool := by
  unfold named
  cases hf : tools.find? (·.name == tool.name) with
  | none => simpa using List.find?_eq_none.1 hf tool ht
  | some u =>
    have hname : u.name = tool.name := by simpa using List.find?_some hf
    rw [List.inj_on_of_nodup_map h (List.mem_of_find?_eq_some hf) ht hname]

end Tool

namespace CommandLine

variable {w : Surroundings} {t : FileTree} {directory : WorkingDirectory} {sources : Sources}

/-! ## Errors before there is a registry -/

theorem not_isInvalidTool_text {what path : String} {e : Error}
    (h : (Inquiry.text what path).run t directory = .error e) : ¬ e.IsInvalidTool := by
  simp only [Inquiry.text, Inquiry.run] at h
  split at h
  · cases h
  · obtain rfl := Except.error.inj h
    exact id

theorem not_isInvalidTool_settings {text : String} {e : Error}
    (h : Settings.ofYaml text = .error e) : ¬ e.IsInvalidTool := by
  simp only [Settings.ofYaml] at h
  split at h
  · obtain rfl := Except.error.inj h
    exact id
  · rcases Except.bind_eq_error_iff.1 h with h | ⟨u, -, hnever⟩
    · simp only [Settings.validate] at h
      split at h
      · obtain rfl := Except.error.inj h
        exact id
      · cases h
    · cases hnever

theorem not_isInvalidTool_inSettingsFile {path : String} {e : Error} (h : ¬ e.IsInvalidTool) :
    ¬ (e.inSettingsFile path).IsInvalidTool := by
  unfold Error.inSettingsFile
  split
  · exact id
  · exact id
  · exact h

theorem not_isInvalidTool_loadSettingsFile {path : String} {e : Error}
    (h : (loadSettingsFile path).run t directory = .error e) : ¬ e.IsInvalidTool := by
  rcases Inquiry.run_bind_eq_error.1 h with h | ⟨text, -, h⟩
  · exact not_isInvalidTool_text h
  · rcases Inquiry.run_bind_eq_error.1 h with h | ⟨s, -, hnever⟩
    · cases hs : Settings.ofYaml text with
      | ok s =>
        rw [hs] at h
        cases h
      | error e' =>
        rw [hs] at h
        obtain rfl := Except.error.inj h
        exact not_isInvalidTool_inSettingsFile (not_isInvalidTool_settings hs)
    · cases hnever

theorem not_isInvalidTool_loadSettings {config : Option String} {e : Error}
    (h : (loadSettings config).run t directory = .error e) : ¬ e.IsInvalidTool := by
  cases config with
  | some path => exact not_isInvalidTool_loadSettingsFile h
  | none =>
    simp only [loadSettings, Inquiry.run] at h
    split at h
    · exact not_isInvalidTool_loadSettingsFile h
    · cases h

theorem not_isInvalidTool_loadCatalog {path : String} {e : Error}
    (h : (loadCatalog path).run t directory = .error e) : ¬ e.IsInvalidTool := by
  rcases Inquiry.run_bind_eq_error.1 h with h | ⟨text, -, h⟩
  · exact not_isInvalidTool_text h
  · rw [Inquiry.run_ofExcept, Catalog.ofYaml] at h
    split at h
    · cases h
    · obtain rfl := Except.error.inj h
      exact id

theorem not_isInvalidTool_select {c : Catalog} {enabled : Option (List String)} {e : Error}
    (h : c.select enabled = .error e) : ¬ e.IsInvalidTool := by
  cases enabled with
  | none => cases h
  | some names =>
    rw [Catalog.select_eq] at h
    split at h
    · obtain rfl := Except.error.inj h
      exact id
    · cases h

theorem not_isInvalidTool_ofCatalog {c : Catalog} {e : Error}
    (h : Registry.ofCatalog c = .error e) : ¬ e.IsInvalidTool := by
  by_cases hd : (c.tools.map (·.name)).Nodup
  · obtain ⟨r, hr, -⟩ := Registry.exists_ofTools hd
    have hok : Registry.ofCatalog c = .ok r := hr
    rw [hok] at h
    cases h
  · obtain ⟨front, tool, back, hsplit, hf, ht⟩ := Registry.exists_first_repeated hd
    rw [Registry.ofCatalog, hsplit, Registry.ofTools_repeated hf ht] at h
    obtain rfl := Except.error.inj h
    exact id

/-- Nothing that goes wrong before there is a registry concerns the contents of a tool. -/
theorem not_isInvalidTool_registryOf {e : Error}
    (h : (registryOf sources).run t directory = .error e) : ¬ e.IsInvalidTool := by
  rcases Inquiry.run_bind_eq_error.1 h with h | ⟨s, -, h⟩
  · exact not_isInvalidTool_loadSettings h
  · rw [loadRegistry] at h
    split at h
    · cases h
    · rcases Inquiry.run_bind_eq_error.1 h with h | ⟨c, -, h⟩
      · exact not_isInvalidTool_loadCatalog h
      · rcases Except.bind_eq_error_iff.1 h with h | ⟨c', -, h⟩
        · exact not_isInvalidTool_select h
        · exact not_isInvalidTool_ofCatalog h

/-! ## Errors of a prompt's inputs -/

theorem exists_run_firstFile? {β : Type} (l : List (String × β)) :
    ∃ found, (Inquiry.firstFile? l).run t directory = .ok found := by
  induction l with
  | nil => exact ⟨none, rfl⟩
  | cons p l ih =>
    simp only [Inquiry.firstFile?, Inquiry.run]
    split
    · exact ⟨some p.2, rfl⟩
    · exact ih

theorem exists_run_findBuildTool (project : String) :
    ∃ name, (findBuildTool project).run t directory = .ok name := by
  obtain ⟨found, hfound⟩ : ∃ found, (Inquiry.firstFile?
      (buildMarkers.map fun m => (Settings.resolvePath project m.1, m.2))).run t directory =
        .ok found :=
    exists_run_firstFile? _
  exact ⟨_, Inquiry.run_bind_eq_ok.2 ⟨found, hfound, rfl⟩⟩

theorem knownFacts_eq_error {s : Settings} {r : Registry} {e : Error}
    (h : Tool.blockList r.tools = .error e) (project buildTool : String) :
    (knownFacts w project s r buildTool).foldlM Context.Draft.record {} = .error e := by
  have hsnapshot : Tool.blockList r.snapshot.tools = .error e := h
  simp only [knownFacts, List.foldlM_cons, Context.Draft.record, hsnapshot]
  rfl

section
variable {options : PromptOptions} {s : Settings} {r : Registry} {e : Error}

theorem gatherWith_of_no_project (h : projectRoot w options = .error e) :
    (gatherWith w options s r).run t directory = .error e :=
  Inquiry.run_bind_eq_error.2 (Or.inl h)

theorem gatherWith_eq_error {project : String} (hproject : projectRoot w options = .ok project)
    (h : Tool.blockList r.tools = .error e) :
    (gatherWith w options s r).run t directory = .error e := by
  have hfacts : ∀ name, (knownFacts w project s r name).foldlM Context.Draft.record {} =
      .error e :=
    knownFacts_eq_error h project
  refine Inquiry.run_bind_eq_error.2 (Or.inr ⟨project, hproject, ?_⟩)
  -- The build tool is named or looked for; what follows fails alike.
  split
  · rename_i name _
    refine Inquiry.run_bind_eq_error.2 (Or.inr ⟨name, rfl, ?_⟩)
    exact Inquiry.run_bind_eq_error.2 (Or.inl (hfacts name))
  · obtain ⟨name, hname⟩ : ∃ name, (findBuildTool project).run t directory = .ok name :=
      exists_run_findBuildTool _
    refine Inquiry.run_bind_eq_error.2 (Or.inr ⟨name, hname, ?_⟩)
    exact Inquiry.run_bind_eq_error.2 (Or.inl (hfacts name))

/-- The inputs of a prompt fail as the registry does. -/
theorem gather_of_no_registry (h : (registryOf options.sources).run t directory = .error e) :
    (gather w options).run t directory = .error e := by
  rw [gather, Inquiry.run_bind_eq_error]
  rcases Inquiry.run_bind_eq_error.1 h with h | ⟨s, hs, h⟩
  · exact Or.inl h
  · exact Or.inr ⟨s, hs, Inquiry.run_bind_eq_error.2 (Or.inl h)⟩

theorem gather_of_registry (hr : (registryOf options.sources).run t directory = .ok r)
    (h : ∀ s, (gatherWith w options s r).run t directory = .error e) :
    (gather w options).run t directory = .error e := by
  obtain ⟨s, hs, hr⟩ := Inquiry.run_bind_eq_ok.1 hr
  refine Inquiry.run_bind_eq_error.2 (Or.inr ⟨s, hs, ?_⟩)
  exact Inquiry.run_bind_eq_error.2 (Or.inr ⟨r, hr, h s⟩)

def PromptsFail (w : Surroundings) (t : FileTree) (options : PromptOptions) (e : Error) : Prop :=
  (Request.check options).ending w t = .failed e ∧
    ∀ output, (Request.render options output).ending w t = .failed e

theorem promptsFail_of_gather (h : (gather w options).run t w.directory = .error e) :
    PromptsFail w t options e := by
  refine ⟨?_, fun output => ?_⟩
  · rw [check_ending, h]
    rfl
  · refine (Request.ending_eq_failed_iff (by simp)).2 ?_
    exact Inquiry.run_bind_eq_error.2 (Or.inl h)

end

/-! ## What the commands print -/

theorem tools_ending_eq_printed {text : String} :
    (Request.tools sources).ending w t = .finished (.printed text) ↔
      ∃ r, (registryOf sources).run t w.directory = .ok r ∧ Tool.blockList r.tools = .ok text := by
  have hiff : (Request.tools sources).ending w t = .finished (.printed text) ↔ _ :=
    Request.ending_eq_finished_iff (by simp)
  exact hiff.trans Inquiry.run_bind_eq_ok

theorem tools_ending_eq_failed {e : Error} :
    (Request.tools sources).ending w t = .failed e ↔
      (registryOf sources).run t w.directory = .error e ∨
        ∃ r, (registryOf sources).run t w.directory = .ok r ∧
          Tool.blockList r.tools = .error e := by
  have hiff : (Request.tools sources).ending w t = .failed e ↔ _ :=
    Request.ending_eq_failed_iff (by simp)
  exact hiff.trans Inquiry.run_bind_eq_error

section
variable {r : Registry} (hr : (registryOf sources).run t w.directory = .ok r)
include hr

theorem run_text_schema (name : String) :
    ((Request.schema name sources).text w).run t w.directory = (r.get name).bind Tool.block := by
  rw [Request.text, Inquiry.run_bind, hr]
  rfl

theorem run_text_schema_of_mem {tool : Tool} (ht : tool ∈ r.tools) :
    ((Request.schema tool.name sources).text w).run t w.directory = tool.block := by
  rw [run_text_schema hr, Registry.get, Tool.named_of_mem r.distinct ht]
  rfl

theorem schema_ending_eq_printed_of_mem {tool : Tool} (ht : tool ∈ r.tools) {block : String}
    (h : tool.block = .ok block) :
    (Request.schema tool.name sources).ending w t = .finished (.printed block) := by
  refine (Request.ending_eq_finished_iff (by simp)).2 ?_
  rw [run_text_schema_of_mem hr ht, h]

theorem schema_ending_eq_failed_of_mem {tool : Tool} (ht : tool ∈ r.tools) {e : Error}
    (h : tool.block = .error e) : (Request.schema tool.name sources).ending w t = .failed e := by
  refine (Request.ending_eq_failed_iff (by simp)).2 ?_
  rw [run_text_schema_of_mem hr ht, h]

theorem schema_ending_of_not_mem {name : String} (hn : name ∉ r.names) :
    (Request.schema name sources).ending w t = .failed (.toolNotFound name) := by
  refine (Request.ending_eq_failed_iff (by simp)).2 ?_
  rw [run_text_schema hr, Registry.get, Tool.named_eq_error_iff.2 ⟨hn, rfl⟩]
  rfl

end

/-- A rendering and a check of gathered inputs put the text in the place of the tool list, and the
check compares it with the tools of the registry. -/
structure UseToolList (w : Surroundings) (t : FileTree) (options : PromptOptions)
    (inputs : Inputs) (r : Registry) (text : String) : Prop where
  registry : inputs.registry = r
  toolList : inputs.context.bindings.get? "tool_list" = some (.text text)
  renders : ∀ output, (Request.render options output).ending w t =
    .ofResult ((Template.compile inputs.template inputs.context.bindings).map
      (Request.render options output).outcome)
  checks : ∃ report, (Request.check options).ending w t = .finished (.audited report) ∧
    Audit.auditTools text.toList r.tools <+: report ∧
    ∀ prompt, Template.compile inputs.template inputs.context.bindings = .ok prompt →
      Audit.auditPrompt inputs.template inputs.context.bindings prompt <:+ report

theorem check_ending_of_gather {options : PromptOptions} {inputs : Inputs}
    {report : Audit.Report} (h : (gather w options).run t w.directory = .ok inputs)
    (hreport : auditInputs inputs = .ok report) :
    (Request.check options).ending w t = .finished (.audited report) := by
  rw [check_ending, h]
  simp only [Except.bind, hreport]
  rfl

theorem useToolList_of_gather {options : PromptOptions} {inputs : Inputs} {r : Registry}
    {text : String} (hr : (registryOf options.sources).run t w.directory = .ok r)
    (htext : Tool.blockList r.tools = .ok text)
    (h : (gather w options).run t w.directory = .ok inputs) :
    UseToolList w t options inputs r text := by
  obtain ⟨hr', htext'⟩ := run_gather h
  obtain rfl := Except.ok.inj (hr.symm.trans hr')
  obtain rfl := Except.ok.inj (htext.symm.trans htext')
  refine ⟨rfl, Context.get?_tool_list _, fun output => ?_, ?_⟩
  · rw [Request.ending, Request.run_perform (by simp), Request.text, renderPrompt,
      Inquiry.run_bind, h]
    rfl
  · cases hp : Prompt.renderWith inputs.context inputs.template with
    | ok prompt =>
      have hreport := auditInputs_of_rendered hp
      refine ⟨_, check_ending_of_gather h hreport, List.prefix_append _ _, fun other hother => ?_⟩
      obtain rfl := Except.ok.inj (hp.symm.trans hother)
      exact (List.suffix_cons _ _).trans (List.suffix_append _ _)
    | error e =>
      have hreport := auditInputs_of_not_rendered hp
      refine ⟨_, check_ending_of_gather h hreport, List.prefix_append _ _, fun other hother => ?_⟩
      have hnever := hp.symm.trans hother
      cases hnever

/-- All commands describe the same tools. The printed list joins the blocks that are printed one by
one, and is the tool list of every prompt. If it cannot be printed, there is no prompt either, and the
reason is the same unless there are tools but no project for a prompt; if it lies in a tool, it is that
of the first tool without a block. The name of a tool comes after two dashes if it begins with one. -/
theorem commands_share_tools (w : Surroundings) (t : FileTree) (sources : Sources) :
    (∀ args r, Invocation.ofArguments args = .run r → (r.ending w t).pending? = none →
      run w t args = (r.ending w t, t)) ∧
    (∀ args, Invocation.ofArguments ("tools" :: args) = .run (.tools sources) → "--" ∉ args →
      (∃ options output, options.sources = sources ∧
        Invocation.ofArguments ("check" :: args) = .run (.check options) ∧
        Invocation.ofArguments ("render" :: args) = .run (.render options output)) ∧
      ∀ name, Invocation.ofArguments ("schema" :: args ++ ["--", name]) =
          .run (.schema name sources) ∧
        ((∀ rest, name.toList ≠ '-' :: rest) →
          Invocation.ofArguments ("schema" :: args ++ [name]) = .run (.schema name sources))) ∧
    (∀ text, (Request.tools sources).ending w t = .finished (.printed text) →
      ∃ (r : Registry) (blocks : List String),
        (registryOf sources).run t w.directory = .ok r ∧ text = "\n\n".intercalate blocks ∧
        List.Forall₂ (fun tool block => (Request.schema tool.name sources).ending w t =
          .finished (.printed block)) r.tools blocks ∧
        (∀ name, name ∉ r.names →
          (Request.schema name sources).ending w t = .failed (.toolNotFound name)) ∧
        ∀ options inputs, options.sources = sources →
          (gather w options).run t w.directory = .ok inputs →
          UseToolList w t options inputs r text) ∧
    (∀ e, (Request.tools sources).ending w t = .failed e →
      ∀ options, options.sources = sources →
        ((registryOf sources).run t w.directory = .error e → PromptsFail w t options e) ∧
        (∀ project, projectRoot w options = .ok project → PromptsFail w t options e) ∧
        ∀ r cause, (registryOf sources).run t w.directory = .ok r →
          projectRoot w options = .error cause → PromptsFail w t options cause) ∧
    ∀ name reason, (Request.tools sources).ending w t = .failed (.invalidTool name reason) →
      ∃ (r : Registry) (front : List Tool) (tool : Tool) (back : List Tool),
        (registryOf sources).run t w.directory = .ok r ∧ r.tools = front ++ tool :: back ∧
        (∀ u ∈ front, ∃ block, (Request.schema u.name sources).ending w t =
          .finished (.printed block)) ∧
        tool.name = name ∧
        (Request.schema tool.name sources).ending w t = .failed (.invalidTool name reason) := by
  refine ⟨fun args r => run_eq_ending, fun args h hdivider =>
    ⟨exists_ofArguments_prompt h hdivider, ofArguments_schema h hdivider⟩,
    fun text h => ?_, fun e h options hsources => ?_, fun name reason h => ?_⟩
  · obtain ⟨r, hr, htext⟩ := tools_ending_eq_printed.1 h
    obtain ⟨blocks, hblocks, hjoined⟩ := Tool.exists_blocks_of_blockList htext
    refine ⟨r, blocks, hr, hjoined, ?_, fun name => schema_ending_of_not_mem hr, ?_⟩
    · refine List.forall₂_iff_get.2 ⟨hblocks.length_eq, fun i hi hi' => ?_⟩
      have hblock := (List.forall₂_iff_get.1 hblocks).2 i hi hi'
      exact schema_ending_eq_printed_of_mem hr (List.get_mem _ _) hblock
    · rintro options inputs rfl hinputs
      exact useToolList_of_gather hr htext hinputs
  · subst hsources
    refine ⟨fun hr => promptsFail_of_gather (gather_of_no_registry hr), fun project hproject => ?_,
      fun r cause hr hcause => promptsFail_of_gather ?_⟩
    · rcases tools_ending_eq_failed.1 h with hr | ⟨r, hr, hlist⟩
      · exact promptsFail_of_gather (gather_of_no_registry hr)
      · exact promptsFail_of_gather <| gather_of_registry hr fun s =>
          gatherWith_eq_error hproject hlist
    · exact gather_of_registry hr fun s => gatherWith_of_no_project hcause
  · rcases tools_ending_eq_failed.1 h with hnone | ⟨r, hr, hlist⟩
    · exact absurd trivial (not_isInvalidTool_registryOf hnone)
    · obtain ⟨front, tool, back, hsplit, hfront, hblock⟩ := Tool.first_error_of_blockList hlist
      have hmem : ∀ u ∈ front ++ tool :: back, u ∈ r.tools := fun u hu => hsplit ▸ hu
      refine ⟨r, front, tool, back, hr, hsplit, fun u hu => ?_, ?_, ?_⟩
      · obtain ⟨block, hb⟩ := hfront u hu
        exact ⟨block, schema_ending_eq_printed_of_mem hr (hmem u (by simp [hu])) hb⟩
      · obtain ⟨other, hother⟩ := Tool.block_eq_error hblock
        exact (Error.invalidTool.inj hother).1.symm
      · exact schema_ending_eq_failed_of_mem hr (hmem tool (by simp)) hblock

/-- A catalog with a name that looks like an option, one with two tools whose names have blanks, and a
template. -/
def sharedFiles : FileTree :=
  ⟨[(["good".toList],
      .file (some "tools: [\x7bname: a\x7d, \x7bname: b\x7d, \x7bname: -x\x7d]")),
    (["bad".toList],
      .file (some "tools: [\x7bname: a\x7d, \x7bname: b c\x7d, \x7bname: d e\x7d]")),
    (["t".toList], .file (some "\x7b\x7btool_list\x7d\x7d"))]⟩

def sharedOptions : PromptOptions :=
  { sources := { tools := some "good" }, template := some "t" }

def lostSurroundings : Surroundings :=
  { quotingSurroundings with directory := .error .missing }

def lostDirectory : Error :=
  .badFile "failed to determine current directory: No such file or directory (os error 2)"

theorem commands_share_tools_at_blank_names :
    (∃ text block inputs,
      run quotingSurroundings sharedFiles ["tools", "--tools", "good"] =
        (.finished (.printed text), sharedFiles) ∧
      run quotingSurroundings sharedFiles ["schema", "--tools", "good", "a"] =
        (.finished (.printed block), sharedFiles) ∧
      Invocation.ofArguments ["schema", "--tools", "good", "--", "-x"] =
        .run (.schema "-x" { tools := some "good" }) ∧
      (Request.schema "c" { tools := some "good" }).ending quotingSurroundings sharedFiles =
        .failed (.toolNotFound "c") ∧
      UseToolList quotingSurroundings sharedFiles sharedOptions inputs inputs.registry text) ∧
    (∃ reason, ∀ r ∈ [Request.tools { tools := some "bad" },
        .check { sources := { tools := some "bad" } }, .schema "b c" { tools := some "bad" }],
      r.ending quotingSurroundings sharedFiles = .failed (.invalidTool "b c" reason)) ∧
    PromptsFail lostSurroundings sharedFiles { sources := { tools := some "/bad" } }
      lostDirectory := by
  obtain ⟨hrun, hargues, hprints, -, -⟩ :=
    commands_share_tools quotingSurroundings sharedFiles { tools := some "good" }
  obtain ⟨-, -, -, hfails, hfirst⟩ :=
    commands_share_tools quotingSurroundings sharedFiles { tools := some "bad" }
  obtain ⟨-, -, -, hlost, -⟩ :=
    commands_share_tools lostSurroundings sharedFiles { tools := some "/bad" }
  refine ⟨?_, ?_, ?_⟩
  · have hgathers : ((gather quotingSurroundings sharedOptions).run sharedFiles
        quotingSurroundings.directory).toOption.map (·.registry.tools) =
          some [{ name := "a" }, { name := "b" }, { name := "-x" }] := by
      decide +kernel
    have hargs : Invocation.ofArguments ["tools", "--tools", "good"] =
        .run (.tools { tools := some "good" }) := by
      decide +kernel
    obtain ⟨-, hnames⟩ := hargues _ hargs (by decide)
    have hplain : ∀ rest, "a".toList ≠ '-' :: rest := by simp
    obtain ⟨inputs, hinputs, htools⟩ := Option.map_eq_some_iff.1 hgathers
    rw [Except.toOption_eq_some_iff] at hinputs
    obtain ⟨hr, hlist⟩ := run_gather hinputs
    have htext : (Request.tools { tools := some "good" }).ending quotingSurroundings sharedFiles =
        .finished (.printed inputs.context.toolList) :=
      tools_ending_eq_printed.2 ⟨inputs.registry, hr, hlist⟩
    obtain ⟨r, blocks, hr', -, hblocks, hmissing, huses⟩ := hprints _ htext
    obtain rfl := Except.ok.inj (hr.symm.trans hr')
    rw [htools] at hblocks
    obtain ⟨block, more, hblock, -, rfl⟩ := List.forall₂_cons_left_iff.1 hblocks
    have hc : "c" ∉ inputs.registry.names := by simp [Registry.names, htools]
    have hnamed : Invocation.ofArguments ["schema", "--tools", "good", "a"] =
        .run (.schema "a" { tools := some "good" }) :=
      (hnames "a").2 hplain
    refine ⟨_, block, inputs, ?_, ?_, (hnames "-x").1, hmissing "c" hc, huses _ inputs rfl hinputs⟩
    · rw [hrun _ _ hargs (by rw [htext]; rfl), htext]
    · rw [hrun _ _ hnamed (by rw [hblock]; rfl), hblock]
  · have hbad : (Request.tools { tools := some "bad" }).ending quotingSurroundings sharedFiles =
        .failed (.invalidTool "b c" "tool name must not contain whitespace") := by
      decide +kernel
    obtain ⟨r, front, tool, back, -, -, -, hname, hschema⟩ := hfirst _ _ hbad
    rw [hname] at hschema
    have hcheck := ((hfails _ hbad { sources := { tools := some "bad" } } rfl).2.1 "/" rfl).1
    refine ⟨_, List.forall_mem_cons.2 ⟨hbad, List.forall_mem_cons.2 ⟨hcheck, ?_⟩⟩⟩
    exact List.forall_mem_singleton.2 hschema
  · have hloads : ((registryOf { tools := some "/bad" }).run sharedFiles
        lostSurroundings.directory).isOk = true := by
      decide +kernel
    have hbad : (Request.tools { tools := some "/bad" }).ending lostSurroundings sharedFiles =
        .failed (.invalidTool "b c" "tool name must not contain whitespace") := by
      decide +kernel
    obtain ⟨r, hr⟩ := Except.exists_eq_ok_of_isOk hloads
    exact (hlost _ hbad { sources := { tools := some "/bad" } } rfl).2.2 r _ hr rfl

/-- Without the two dashes a name can be taken for an option, though the tools command lists the tool.
Where the working directory cannot be told and no project is named, a prompt fails before its tools are
looked at. -/
theorem commands_differ_at_dashed_name_and_lost_directory :
    (((registryOf { tools := some "good" }).run sharedFiles "/").toOption.map (·.names) =
        some ["a", "b", "-x"] ∧
      (run quotingSurroundings sharedFiles ["tools", "--tools", "good"]).1.exitStatus = 0 ∧
      (run quotingSurroundings sharedFiles ["schema", "-x", "--tools", "good"]).1 = .misuse) ∧
    (run lostSurroundings sharedFiles ["tools", "--tools", "/bad"]).1 =
      .failed (.invalidTool "b c" "tool name must not contain whitespace") ∧
    (run lostSurroundings sharedFiles ["render", "--tools", "/bad"]).1 = .failed lostDirectory := by
  refine ⟨⟨?_, ?_, ?_⟩, ?_, ?_⟩ <;> decide +kernel

end CommandLine
end AgentPrompt
