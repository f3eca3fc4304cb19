import AgentPrompt.Proofs.CommandLine.Endings
import AgentPrompt.Proofs.Tool.Selection

/-! What is gathered for a prompt depends on the settings only after the options have been put in
their place. -/
namespace AgentPrompt.CommandLine

variable {w : Surroundings} {options : PromptOptions} {s : Settings} {t : FileTree}
  {d : WorkingDirectory}

def gatherFrom (w : Surroundings) (options : PromptOptions) (s : Settings) : Inquiry Inputs := do
  let registry ← loadRegistry options.sources s
  gatherWith w options s registry

namespace PromptOptions

/-- The settings with the options in the place of those that they override. A locale counts only where
there is no template file. -/
def merge (options : PromptOptions) (s : Settings) : Settings :=
  let templateFile := options.template <|> s.templateFile
  { s with
    toolsFile := options.sources.tools <|> s.toolsFile
    templateFile
    locale := if templateFile.isSome then .default else options.locale.getD s.locale }

/-- The options that have no setting of the same meaning. -/
def rest (options : PromptOptions) : PromptOptions :=
  { project := options.project, currentFile := options.currentFile }

theorem merge_toolsFile (h : options.sources.tools.isSome) (file : Option String) :
    options.merge { s with toolsFile := file } = options.merge s := by
  obtain ⟨path, hpath⟩ := Option.isSome_iff_exists.1 h
  simp [merge, hpath]

theorem merge_templateFile (h : options.template.isSome) (file : Option String)
    (locale : Locale) (flag : Option Locale) :
    { options with locale := flag }.merge { s with templateFile := file, locale := locale } =
      options.merge s := by
  obtain ⟨path, hpath⟩ := Option.isSome_iff_exists.1 h
  simp [merge, hpath]

theorem merge_locale (h : options.locale.isSome) (locale : Locale) :
    options.merge { s with locale := locale } = options.merge s := by
  obtain ⟨flag, hflag⟩ := Option.isSome_iff_exists.1 h
  simp [merge, hflag]

theorem merge_locale_of_template (h : (options.template <|> s.templateFile).isSome)
    (locale : Locale) (flag : Option Locale) :
    { options with locale := flag }.merge { s with locale := locale } = options.merge s := by
  simp only [merge, h, if_true]

end PromptOptions

theorem loadTemplate_merge (options : PromptOptions) (s : Settings) :
    loadTemplate options.rest (options.merge s) = loadTemplate options s := by
  have hfile : (options.rest.template <|> (options.merge s).templateFile) =
      (options.template <|> s.templateFile) := rfl
  unfold loadTemplate
  rw [hfile]
  cases h : options.template <|> s.templateFile with
  | some path => rfl
  | none => simp [PromptOptions.merge, PromptOptions.rest, h]

/-- After the merge, the options that were merged are not needed any more. -/
theorem gatherFrom_merge (w : Surroundings) (options : PromptOptions) (s : Settings) :
    gatherFrom w options.rest (options.merge s) = gatherFrom w options s := by
  have hregistry : loadRegistry options.rest.sources (options.merge s) =
      loadRegistry options.sources s := rfl
  have hwith : ∀ r, gatherWith w options.rest (options.merge s) r = gatherWith w options s r := by
    intro r
    simp only [gatherWith, loadTemplate_merge]
    rfl
  simp only [gatherFrom, hregistry, hwith]

theorem gatherFrom_eq_of_merge {options' : PromptOptions} {s' : Settings}
    (hrest : options'.rest = options.rest) (hmerge : options'.merge s' = options.merge s) :
    gatherFrom w options' s' = gatherFrom w options s := by
  rw [← gatherFrom_merge w options' s', hrest, hmerge, gatherFrom_merge]

/-! ## What the options put in the place of the settings -/

theorem run_gather_of_config (config : Option String) :
    (gather w { options with sources.config := config }).run t d =
      ((loadSettings config).run t d).bind fun s => (gatherFrom w options s).run t d := by
  have hfrom : gatherFrom w { options with sources.config := config } = gatherFrom w options :=
    funext fun s => gatherFrom_eq_of_merge rfl rfl
  rw [← hfrom]
  exact Inquiry.run_bind t d _ _

theorem run_gatherFrom {inputs : Inputs} (h : (gatherFrom w options s).run t d = .ok inputs) :
    (loadRegistry options.sources s).run t d = .ok inputs.registry ∧
      (loadTemplate options s).run t d = .ok inputs.template := by
  obtain ⟨r, hr, h⟩ := Inquiry.run_bind_eq_ok.1 h
  obtain ⟨rfl, htemplate, -⟩ := gatherWith_eq_ok h
  exact ⟨hr, htemplate⟩

section
variable {path : String} (h : options.sources.tools = some path) {c : Catalog}
  (hc : (loadCatalog path).run t d = .ok c)
include h hc

theorem run_loadRegistry :
    (loadRegistry options.sources s).run t d =
      (c.select s.enabledTools).bind Registry.ofCatalog := by
  rw [loadRegistry, h]
  show (loadCatalog path >>= _).run t d = _
  rw [Inquiry.run_bind, hc]
  rfl

theorem tools_gatherFrom {inputs : Inputs} (hi : (gatherFrom w options s).run t d = .ok inputs) :
    inputs.registry.tools =
      c.tools.filter fun tool => s.enabledTools.all fun names => tool.name ∈ names := by
  have hregistry := (run_gatherFrom hi).1
  rw [run_loadRegistry h hc] at hregistry
  exact Catalog.tools_of_select hregistry

theorem gatherFrom_of_unknown {before after : List String} {n : String}
    (henabled : s.enabledTools = some (before ++ n :: after))
    (hbefore : ∀ m ∈ before, m ∈ c.names) (hn : n ∉ c.names) :
    (gatherFrom w options s).run t d = .error (.toolNotFound n) := by
  refine Inquiry.run_bind_eq_error.2 (Or.inl ?_)
  rw [run_loadRegistry h hc, henabled]
  exact Catalog.registerEnabled_of_unknown hbefore hn

end

theorem run_template_file {path : String} (h : options.template = some path) {inputs : Inputs}
    (hi : (gatherFrom w options s).run t d = .ok inputs) :
    (Inquiry.text "template file" path).run t d = .ok inputs.template := by
  have htemplate := (run_gatherFrom hi).2
  rw [loadTemplate, h] at htemplate
  exact htemplate

theorem template_builtin {flag : Locale} (h : options.locale = some flag)
    (hnone : (options.template <|> s.templateFile) = none) {inputs : Inputs}
    (hi : (gatherFrom w options s).run t d = .ok inputs) :
    inputs.template = Prompt.builtin flag := by
  have htemplate := (run_gatherFrom hi).2
  rw [loadTemplate, hnone, h] at htemplate
  exact (Except.ok.inj htemplate).symm

/-- Once the settings are loaded, from whatever file, those that an option overrides make no difference:
the same files are looked at, with the same result or the same error. The catalog of an option takes
the place of the one in the settings and is still cut down to the enabled tools; a template file takes
the place of another and makes all locales irrelevant, as does one that the settings name; a locale
takes the place of another. -/
theorem gather_hides_overridden (w : Surroundings) (options : PromptOptions) :
    (∀ config t d, (gather w { options with sources.config := config }).run t d =
      ((loadSettings config).run t d).bind fun s => (gatherFrom w options s).run t d) ∧
    ∀ s : Settings,
    (∀ path, options.sources.tools = some path →
      (∀ file, gatherFrom w options { s with toolsFile := file } = gatherFrom w options s) ∧
      ∀ t d c, (loadCatalog path).run t d = .ok c →
        (∀ inputs, (gatherFrom w options s).run t d = .ok inputs →
          inputs.registry.tools =
            c.tools.filter fun tool => s.enabledTools.all fun names => tool.name ∈ names) ∧
        ∀ before n after, s.enabledTools = some (before ++ n :: after) →
          (∀ m ∈ before, m ∈ c.names) → n ∉ c.names →
          (gatherFrom w options s).run t d = .error (.toolNotFound n)) ∧
    (∀ path, options.template = some path →
      (∀ file locale flag,
        gatherFrom w { options with locale := flag }
          { s with templateFile := file, locale := locale } = gatherFrom w options s) ∧
      ∀ t d inputs, (gatherFrom w options s).run t d = .ok inputs →
        (Inquiry.text "template file" path).run t d = .ok inputs.template) ∧
    (∀ flag, options.locale = some flag →
      (∀ locale, gatherFrom w options { s with locale := locale } = gatherFrom w options s) ∧
      ∀ t d inputs, (options.template <|> s.templateFile) = none →
        (gatherFrom w options s).run t d = .ok inputs → inputs.template = Prompt.builtin flag) ∧
    ((options.template <|> s.templateFile).isSome → ∀ locale flag,
      gatherFrom w { options with locale := flag } { s with locale := locale } =
        gatherFrom w options s) := by
  refine ⟨fun config t d => run_gather_of_config config, fun s => ⟨fun path h => ⟨fun file => ?_,
    fun t d c hc => ⟨fun inputs => tools_gatherFrom h hc, fun before n after =>
      gatherFrom_of_unknown h hc⟩⟩, fun path h => ⟨fun file locale flag => ?_,
    fun t d inputs => run_template_file h⟩, fun flag h => ⟨fun locale => ?_,
    fun t d inputs hnone => template_builtin h hnone⟩, fun h locale flag => ?_⟩⟩
  · refine gatherFrom_eq_of_merge (by rfl) ?_
    exact PromptOptions.merge_toolsFile (Option.isSome_of_eq_some h) file
  · refine gatherFrom_eq_of_merge (by rfl) ?_
    exact PromptOptions.merge_templateFile (Option.isSome_of_eq_some h) file locale flag
  · refine gatherFrom_eq_of_merge (by rfl) ?_
    exact PromptOptions.merge_locale (Option.isSome_of_eq_some h) locale
  · refine gatherFrom_eq_of_merge (by rfl) ?_
    exact PromptOptions.merge_locale_of_template h locale flag

/-- Settings that name files which are not there, settings that name none, and settings that enable an
unknown tool, beside a catalog and a template. -/
def overriddenFiles : FileTree :=
  ⟨[(["stale".toList], .file (some
      "tools_file: gone\ntemplate_file: gone\nlocale: en\nenabled_tools: [read]\n")),
    (["bare".toList], .file (some "locale: zh\nenabled_tools: [read]\n")),
    (["wrong".toList], .file (some "enabled_tools: [read, lost]\n")),
    (["c".toList], .file (some "tools: [\x7bname: read\x7d, \x7bname: shell\x7d]")),
    (["t".toList], .file (some "text"))]⟩

def overridingOptions (config : String) : PromptOptions :=
  { sources := { config := some config, tools := some "c" }, template := some "t" }

theorem gather_hides_overridden_stale :
    ∃ inputs,
      (gather quotingSurroundings (overridingOptions "stale")).run overriddenFiles "/" =
        .ok inputs ∧
      (gather quotingSurroundings (overridingOptions "bare")).run overriddenFiles "/" =
        .ok inputs ∧
      inputs.registry.tools = [{ name := "read" }] ∧ inputs.template = "text" ∧
      (gather quotingSurroundings (overridingOptions "wrong")).run overriddenFiles "/" =
        .error (.toolNotFound "lost") := by
  let w := quotingSurroundings
  let options := overridingOptions "bare"
  let stale : Settings :=
    { templateFile := some "gone", toolsFile := some "gone", enabledTools := some ["read"] }
  let bare : Settings := { locale := .chinese, enabledTools := some ["read"] }
  let wrong : Settings := { enabledTools := some ["read", "lost"] }
  have hstale : (loadSettings (some "stale")).run overriddenFiles "/" = .ok stale := by
    decide +kernel
  have hbare : (loadSettings (some "bare")).run overriddenFiles "/" = .ok bare := by
    decide +kernel
  have hwrong : (loadSettings (some "wrong")).run overriddenFiles "/" = .ok wrong := by
    decide +kernel
  have hcatalog : (loadCatalog "c").run overriddenFiles "/" =
      .ok ⟨[{ name := "read" }, { name := "shell" }]⟩ := by
    decide +kernel
  have hgathers : ((gather w options).run overriddenFiles "/").isOk = true := by
    decide +kernel
  obtain ⟨inputs, hinputs⟩ := Except.exists_eq_ok_of_isOk hgathers
  obtain ⟨hloaded, hhides⟩ := gather_hides_overridden w options
  have hrun : ∀ config s, (loadSettings config).run overriddenFiles "/" = .ok s →
      (gather w { options with sources.config := config }).run overriddenFiles "/" =
        (gatherFrom w options s).run overriddenFiles "/" := by
    intro config s hs
    rw [hloaded, hs]
    rfl
  have htools : gatherFrom w options { stale with toolsFile := none } = gatherFrom w options stale :=
    ((hhides stale).1 "c" rfl).1 none
  have htemplate : gatherFrom w options bare =
      gatherFrom w options { stale with toolsFile := none } :=
    ((hhides { stale with toolsFile := none }).2.1 "t" rfl).1 none .chinese none
  have hfrom : (gatherFrom w options bare).run overriddenFiles "/" = .ok inputs :=
    (hrun (some "bare") bare hbare).symm.trans hinputs
  obtain ⟨-, honly⟩ := (hhides bare).1 "c" rfl
  obtain ⟨-, htext⟩ := (hhides bare).2.1 "t" rfl
  obtain ⟨-, hunknown⟩ := (hhides wrong).1 "c" rfl
  refine ⟨inputs, ?_, hinputs, ?_, ?_, ?_⟩
  · exact (hrun (some "stale") stale hstale).trans (by rw [← htools, ← htemplate, hfrom])
  · rw [(honly overriddenFiles "/" _ hcatalog).1 inputs hfrom]
    decide
  · have hread : (Inquiry.text "template file" "t").run overriddenFiles "/" = .ok "text" := by
      decide +kernel
    exact Except.ok.inj ((htext overriddenFiles "/" inputs hfrom).symm.trans hread)
  · refine (hrun (some "wrong") wrong hwrong).trans ?_
    exact (hunknown overriddenFiles "/" _ hcatalog).2 ["read"] "lost" [] rfl (by decide) (by decide)

end AgentPrompt.CommandLine
