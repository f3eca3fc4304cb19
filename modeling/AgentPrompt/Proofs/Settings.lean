import AgentPrompt.Proofs.Yaml.Document
import AgentPrompt.Settings

namespace AgentPrompt
namespace Yaml

/-- Fields that may be left out, by name. -/
abbrev Table :=
  List (String × Option Content)

namespace Table

/-- The fields that are not left out. -/
def fields (t : Table) : List (String × Content) :=
  t.filterMap fun e => e.2.map fun c => (e.1, c)

theorem mem_fields_iff {t : Table} {name : String} {c : Content} :
    (name, c) ∈ t.fields ↔ (name, some c) ∈ t := by
  simp only [fields, List.mem_filterMap, Option.map_eq_some_iff, Prod.mk.injEq]
  constructor
  · rintro ⟨⟨name', v⟩, hmem, c', hv, rfl, rfl⟩
    exact hv ▸ hmem
  · intro hmem
    exact ⟨_, hmem, c, rfl, rfl, rfl⟩

theorem fieldsText_fields (t : Table) :
    fieldsText t.fields = t.flatMap fun e => (e.2.map (Content.field e.1)).getD [] := by
  induction t with
  | nil => rfl
  | cons e t ih =>
    obtain ⟨name, v⟩ := e
    rw [List.flatMap_cons, ← ih]
    cases v with
    | none => rfl
    | some c => rfl

theorem fields_names_sublist (t : Table) :
    (t.fields.map Prod.fst).Sublist (t.map Prod.fst) := by
  induction t with
  | nil => exact .slnil
  | cons e t ih =>
    obtain ⟨name, v⟩ := e
    cases v with
    | none => exact ih.cons name
    | some c => exact ih.cons_cons name

/-- A field is found under its name exactly if it is not left out. -/
theorem find_fields {t : Table} (h : (t.map Prod.fst).Nodup) {name : String} {v : Option Content}
    (hmem : (name, v) ∈ t) :
    Document.Fields.find (Document.fieldNodes t.fields) name = .ok (v.map Content.node) := by
  have hnames : (Document.fieldNodes t.fields).map Prod.fst = t.fields.map Prod.fst := by
    rw [Document.fieldNodes, List.map_map]
    rfl
  cases v with
  | some c =>
    refine Document.Fields.find_of_mem (hnames ▸ h.sublist t.fields_names_sublist) ?_
    exact List.mem_map.2 ⟨(name, c), mem_fields_iff.2 hmem, rfl⟩
  | none =>
    refine Document.Fields.find_of_not_mem ?_
    rw [hnames]
    intro hfound
    obtain ⟨⟨name, c⟩, hc, rfl⟩ := List.mem_map.1 hfound
    have heq := List.inj_on_of_nodup_map h hmem (mem_fields_iff.1 hc) rfl
    cases heq

end Table
end Yaml

namespace Settings
open Yaml (Content Document)
open Yaml.Document (Gives)

/-- What the document has for each setting. -/
def table (s : Settings) : Yaml.Table :=
  [("locale", some (.text s.locale.name)),
    ("template_file", s.templateFile.map .text),
    ("tools_file", s.toolsFile.map .text),
    ("enabled_tools", s.enabledTools.map .list),
    ("agent_rules_file", s.agentRulesFile.map .text),
    ("os_info", s.osInfo.map .text),
    ("build_tool", s.buildTool.map .text),
    ("shell", s.shell.map .text),
    ("project_structure", s.projectStructure.map .text),
    ("module_info", s.moduleInfo.map .text),
    ("framework_context", s.frameworkContext.map .text)]

def names : List String :=
  ["locale", "template_file", "tools_file", "enabled_tools", "agent_rules_file", "os_info",
    "build_tool", "shell", "project_structure", "module_info", "framework_context"]

theorem names_table (s : Settings) : s.table.map Prod.fst = names :=
  rfl

theorem toYaml_eq (s : Settings) : s.toYaml = String.ofList (Yaml.fieldsText s.table.fields) := by
  have htext : ∀ (name : String) (value : Option String),
      ((value.map Content.text).map (Content.field name)).getD [] =
        (value.map (Yaml.fieldText name)).getD [] := by
    intro name value
    cases value <;> rfl
  have hlist : ∀ (name : String) (value : Option (List String)),
      ((value.map Content.list).map (Content.field name)).getD [] =
        (value.map (Yaml.listFieldText name)).getD [] := by
    intro name value
    cases value <;> rfl
  rw [Yaml.Table.fieldsText_fields, table, toYaml]
  simp only [List.flatMap_cons, List.flatMap_nil, List.append_nil, htext, hlist, List.append_assoc]
  rfl

theorem isKey_of_mem_table {s : Settings} : ∀ f ∈ s.table.fields, Yaml.IsKey f.1.toList := by
  intro f hf
  -- A field that is not left out has its name from the table.
  have hname : f.1 ∈ s.table.map Prod.fst :=
    s.table.fields_names_sublist.subset (List.mem_map_of_mem hf)
  rw [names_table] at hname
  have hall : ∀ name ∈ names, name.toList.all Yaml.isKeyChar ∧ name.toList ≠ [] ∧
      name.toList.length ≤ 200 := by decide
  obtain ⟨hchars, hne, hshort⟩ := hall f.1 hname
  exact ⟨List.all_eq_true.1 hchars, hne, hshort⟩

section
variable (s : Settings) (d : Document)

theorem find_table {name : String} {v : Option Content} (h : (name, v) ∈ s.table) :
    Document.Fields.find (Document.fieldNodes s.table.fields) name = .ok (v.map Content.node) := by
  refine Yaml.Table.find_fields ?_ h
  rw [names_table]
  decide

/-- A setting that may be unset. -/
theorem gives_setting {α : Type} {name : String} {value : Option α} {content : α → Content}
    {read : Yaml.Node → Yaml.Decoding α}
    (hread : ∀ v, Gives (d.asOptional read (content v).node) (some v))
    (h : (name, value.map content) ∈ s.table) :
    Gives (Document.Fields.optional (Document.fieldNodes s.table.fields) name none
      (d.asOptional read)) value := by
  refine Document.Fields.gives_optional (s.find_table h) (fun n hn => ?_) (fun hnone => ?_)
  · cases value with
    | none => cases hn
    | some v =>
      obtain rfl := Option.some.inj hn
      exact hread v
  · cases value with
    | none => rfl
    | some v => cases hnone

theorem gives_locale :
    Gives (Document.Fields.optional (Document.fieldNodes s.table.fields) "locale" Locale.default
      (d.asNamed Locale.ofName?)) s.locale := by
  have hmem : ("locale", some (.text s.locale.name)) ∈ s.table := by simp [table]
  refine Document.Fields.gives_optional (s.find_table hmem) (fun n hn => ?_) (fun hnone => ?_)
  · obtain rfl := Option.some.inj hn
    exact Document.gives_asNamed (Locale.ofName?_name s.locale)
  · cases hnone

theorem gives_read : Gives (read d (Document.fieldNodes s.table.fields)) s := by
  have htext : ∀ (name : String) (value : Option String), (name, value.map .text) ∈ s.table →
      Gives (Document.Fields.optional (Document.fieldNodes s.table.fields) name none
        (d.asOptional d.asText)) value :=
    fun _ _ => s.gives_setting d (Document.gives_asOptional_text d)
  have hlist : Gives (Document.Fields.optional (Document.fieldNodes s.table.fields) "enabled_tools"
      none (d.asOptional (d.asList d.asText))) s.enabledTools :=
    s.gives_setting d (Document.gives_asOptional_list d) (by simp [table])
  refine (s.gives_locale d).bind ?_
  refine (htext "template_file" s.templateFile (by simp [table])).bind ?_
  refine (htext "tools_file" s.toolsFile (by simp [table])).bind ?_
  refine hlist.bind ?_
  refine (htext "agent_rules_file" s.agentRulesFile (by simp [table])).bind ?_
  refine (htext "os_info" s.osInfo (by simp [table])).bind ?_
  refine (htext "build_tool" s.buildTool (by simp [table])).bind ?_
  refine (htext "shell" s.shell (by simp [table])).bind ?_
  refine (htext "project_structure" s.projectStructure (by simp [table])).bind ?_
  refine (htext "module_info" s.moduleInfo (by simp [table])).bind ?_
  refine (htext "framework_context" s.frameworkContext (by simp [table])).bind ?_
  exact .pure s

end

theorem readFields_toYaml (s : Settings) : Yaml.readFields s.toYaml read = .ok s := by
  have hne : s.table.fields ≠ [] := by
    refine List.ne_nil_of_mem (a := ("locale", .text s.locale.name)) ?_
    exact Yaml.Table.mem_fields_iff.2 (by simp [table])
  rw [toYaml_eq]
  exact Yaml.readFields_fieldsText hne isKey_of_mem_table (s.gives_read _)

/-- What is written is read back, up to what is wrong with it. -/
theorem ofYaml_toYaml_eq (s : Settings) : ofYaml s.toYaml = s.validate.map fun _ => s := by
  rw [ofYaml, readFields_toYaml]
  show (s.validate >>= fun _ => pure s) = _
  cases s.validate with
  | error e => rfl
  | ok => rfl

/-- Settings with nothing wrong with them are the settings that their document holds; with something
wrong, the document is refused for just that. -/
theorem ofYaml_toYaml (s : Settings) :
    (s.validate = .ok () → ofYaml s.toYaml = .ok s) ∧
      ∀ e, s.validate = .error e → ofYaml s.toYaml = .error e := by
  rw [ofYaml_toYaml_eq]
  constructor
  · intro h
    rw [h]
    rfl
  · intro e h
    rw [h]
    rfl

/-- Texts that would be read as something else if they were written bare, texts of more than one
line, an empty text, an empty list, and settings that are unset. -/
theorem ofYaml_toYaml_lookalikes :
    let s : Settings :=
      { locale := .english
        templateFile := some "null"
        toolsFile := some "- a"
        enabledTools := some []
        agentRulesFile := some "# x"
        osInfo := some ""
        buildTool := some "~"
        shell := some "123"
        projectStructure := some "a: b\n  c\n\n"
        moduleInfo := some "true" }
    s.frameworkContext = none ∧ s.validate = .ok () ∧ ofYaml s.toYaml = .ok s :=
  ⟨rfl, rfl, (ofYaml_toYaml _).1 rfl⟩

end Settings
end AgentPrompt
