import AgentPrompt.Proofs.Audit.Agreement
import AgentPrompt.Proofs.Json.Texts
import AgentPrompt.Proofs.Tool.SchemaReading
import Mathlib.Data.List.Find

/-! The markers in a block come from single texts of its tool: none arises between them, and none is
lost when they are trimmed and escaped. -/
namespace AgentPrompt

/-- What a marker has that keeps it whole: no escapes or punctuation, and no blank at its end. -/
structure Markup.Lasting (m : List Char) : Prop extends Json.Apart m where
  closes : ∃ c, m.getLast? = some c ∧ Text.isBlank c = false

theorem Markup.lasting_of_mem {m : String} (h : m ∈ legacyMarkers) : Lasting m.toList := by
  have hapart : ∀ m ∈ legacyMarkers, Json.Apart m.toList := by decide +kernel
  have hcloses : ∀ m ∈ legacyMarkers,
      m.toList.getLast? = some '>' ∨ m.toList.getLast? = some '=' := by decide +kernel
  refine ⟨hapart m h, ?_⟩
  rcases hcloses m h with hlast | hlast
  · exact ⟨_, hlast, by decide⟩
  · exact ⟨_, hlast, by decide⟩

/-- The texts that a parameter brings into a block: its name, its description, and the strings and
keys inside the value of its default. -/
def Parameter.texts (p : Parameter) : List String :=
  p.name :: p.description :: (p.defaultValue?.map Json.texts).getD []

namespace Tool
open Json (chars)

/-- The texts that a tool brings into its block. The example is the first that is not blank. -/
def texts (t : Tool) : List String :=
  t.name :: t.description :: t.parameters.flatMap Parameter.texts ++
    (t.examples.find? fun e => !Text.isBlankText e.toList).toList

section
variable {m : List Char} (h : Markup.Lasting m)
include h

theorem infix_trim_iff (s : List Char) : m <:+: Text.trim s ↔ m <:+: s := by
  obtain ⟨c, hlast, hc⟩ := h.closes
  exact Text.infix_trim_iff h.opens (by decide) hlast hc s

/-! ## Parameters -/

theorem infix_property_iff (r : Resolved) :
    m <:+: chars r.property ↔
      m <:+: r.parameter.description.toList ∨ ∃ v ∈ r.default, m <:+: chars v := by
  have hkey : ∀ key ∈ ["type", "description", "items", "default"], ¬ m <:+: key.toList := by
    intro key hmem
    have hall : ∀ key ∈ ["type", "description", "items", "default"], '<' ∉ key.toList := by decide
    exact h.not_infix (hall key hmem)
  have htype : ∀ type : ParamType, ¬ m <:+: chars (.string type.name) := by
    intro type
    rw [Json.infix_string_iff h.toApart]
    refine h.not_infix ?_
    cases type with
    | primitive p => cases p <;> decide
    | object => decide
    | array item => exact (by decide : '<' ∉ "array".toList)
  have hdescription : m <:+: chars
      (.string (String.ofList (Text.trim r.parameter.description.toList))) ↔
        m <:+: r.parameter.description.toList := by
    rw [Json.infix_string_iff h.toApart, String.toList_ofList, infix_trim_iff h]
  rw [Resolved.property_eq, Json.infix_object_iff h.toApart]
  constructor
  · rintro ⟨e, he, hin⟩
    rcases mem_members_iff.1 he with rfl | rfl | ⟨item, -, rfl⟩ | ⟨v, hv, rfl⟩
    · exact absurd hin (not_or.2 ⟨hkey _ (by simp), htype _⟩)
    · exact Or.inl (hdescription.1 (hin.resolve_left (hkey _ (by simp))))
    · refine absurd hin (not_or.2 ⟨hkey _ (by simp), ?_⟩)
      rw [Json.infix_object_iff h.toApart]
      rintro ⟨e, he, hin⟩
      obtain rfl := List.mem_singleton.1 he
      exact absurd hin (not_or.2 ⟨hkey _ (by simp), htype (.primitive item)⟩)
    · exact Or.inr ⟨v, hv, hin.resolve_left (hkey _ (by simp))⟩
  · rintro (hin | ⟨v, hv, hin⟩)
    · exact ⟨_, mem_members_iff.2 (Or.inr (Or.inl rfl)), Or.inr (hdescription.2 hin)⟩
    · exact ⟨("default", v), mem_members_iff.2 (Or.inr (Or.inr (Or.inr ⟨v, hv, rfl⟩))),
        Or.inr hin⟩

theorem infix_parameter_iff {p : Parameter} {r : Resolved} (hr : Resolves p r) :
    (m <:+: r.parameter.name.toList ∨ m <:+: chars r.property) ↔
      ∃ s ∈ p.texts, m <:+: s.toList := by
  rw [infix_property_iff h, Parameter.texts, hr.defaultValue?, hr.parameter]
  cases r.default with
  | none => simp
  | some v => simp [Json.infix_chars_iff h.toApart]

theorem infix_parameters_iff {ps : List Parameter} {parameters : List Resolved}
    (hps : List.Forall₂ Resolves ps parameters) :
    (∃ r ∈ parameters, m <:+: r.parameter.name.toList ∨ m <:+: chars r.property) ↔
      ∃ s ∈ ps.flatMap Parameter.texts, m <:+: s.toList := by
  induction hps with
  | nil => simp
  | cons hr hmore ih =>
    rw [List.exists_mem_cons_iff, infix_parameter_iff h hr, ih]
    simp only [List.flatMap_cons, List.mem_append, or_and_right, exists_or]

/-! ## The parts of a block -/

theorem infix_schema_iff (t : Tool) (parameters : List Resolved) :
    m <:+: chars (schemaValue t parameters) ↔
      m <:+: t.name.toList ∨
        (∃ r ∈ parameters, m <:+: r.parameter.name.toList ∨ m <:+: chars r.property) ∨
        ∃ n ∈ t.requiredNames, m <:+: n.toList := by
  have hconstant : ∀ s ∈ ["$schema", schemaDialect, "title", "type", "object", "properties",
      "required", "additionalProperties"], ¬ m <:+: s.toList := by
    intro s hmem
    have hall : ∀ s ∈ ["$schema", schemaDialect, "title", "type", "object", "properties",
        "required", "additionalProperties"], '<' ∉ s.toList := by decide
    exact h.not_infix (hall s hmem)
  simp only [List.forall_mem_cons] at hconstant
  obtain ⟨hschema, hdialect, htitle, htype, hobject, hproperties, hrequired, hclosed, -⟩ := hconstant
  have hfalse : ¬ m <:+: chars (.bool false) := h.not_infix (by simp [chars])
  rw [schemaValue, Json.infix_object_iff h.toApart]
  simp only [List.mem_cons, List.not_mem_nil, or_false, exists_eq_or_imp, exists_eq_left,
    Json.infix_string_iff h.toApart, Json.infix_object_iff h.toApart, Json.ofStrings,
    Json.infix_array_iff h.toApart, List.mem_map, exists_exists_and_eq_and, hschema, hdialect,
    htitle, htype, hobject, hproperties, hrequired, hclosed, hfalse, false_or, or_false]

/-- A call made up from a tool's parameters brings no texts of its own. -/
theorem infix_of_infix_sampleCall {parameters : List Resolved}
    (hin : m <:+: chars (sampleCall parameters)) :
    ∃ r ∈ parameters, m <:+: r.parameter.name.toList ∨ m <:+: chars r.property := by
  rw [sampleCall, Json.infix_object_iff h.toApart] at hin
  obtain ⟨e, he, hin⟩ := hin
  obtain ⟨r, hr, rfl⟩ := List.mem_map.1 he
  refine ⟨r, List.mem_of_mem_filter hr, hin.imp_right fun hin => ?_⟩
  rw [infix_property_iff h]
  unfold Resolved.sample at hin
  split at hin
  · rename_i v hv
    exact Or.inr ⟨v, hv, hin⟩
  · -- The values that stand in for a default hold no text but this one.
    have hexample : ¬ m <:+: "example".toList := h.not_infix (by decide)
    rw [Json.infix_chars_iff h.toApart] at hin
    obtain ⟨s, hs, hin⟩ := hin
    split at hs
    · obtain rfl := List.mem_singleton.1 hs
      exact absurd hin hexample
    all_goals cases hs

omit h in
theorem writtenExample?_eq (t : Tool) :
    t.writtenExample? =
      (t.examples.find? fun e => !Text.isBlankText e.toList).map fun e => Text.trim e.toList := by
  have hsame : ∀ e : String,
      (!(Text.trim e.toList).isEmpty) = !Text.isBlankText e.toList := by
    intro e
    rw [Bool.eq_iff_iff, Bool.not_eq_true', Bool.not_eq_true', ← Bool.not_eq_true,
      ← Bool.not_eq_true, List.isEmpty_iff, Text.trim_eq_nil_iff]
  rw [writtenExample?, List.find?_map]
  simp only [Function.comp_def, hsame]

theorem infix_descriptionLines_iff (t : Tool) :
    m <:+: t.descriptionLines ↔ m <:+: t.description.toList := by
  rw [← infix_trim_iff h t.description.toList]
  simp only [descriptionLines]
  split
  · rename_i hempty
    rw [List.isEmpty_iff.1 hempty]
  · rw [Text.infix_append_cons_iff h.newline_not_mem, List.infix_nil, or_iff_left h.ne_nil]

/-- The example holds what the written example holds, and a call that was made up in its place holds
what the parameters hold. -/
theorem infix_exampleText_cases (t : Tool) (parameters : List Resolved) :
    (m <:+: t.exampleText parameters ↔
        ∃ e ∈ t.examples.find? fun e => !Text.isBlankText e.toList, m <:+: e.toList) ∨
      (t.examples.find? fun e => !Text.isBlankText e.toList) = none ∧
        (m <:+: t.exampleText parameters →
          ∃ r ∈ parameters, m <:+: r.parameter.name.toList ∨ m <:+: chars r.property) := by
  rw [exampleText, writtenExample?_eq]
  cases hfind : t.examples.find? fun e => !Text.isBlankText e.toList with
  | some e => exact Or.inl (by simp [infix_trim_iff h])
  | none => exact Or.inr ⟨rfl, infix_of_infix_sampleCall h⟩

section
variable {t : Tool} {parameters : List Resolved}
  (hps : List.Forall₂ Resolves t.parameters parameters)
include hps

omit h in
/-- What a required name holds is held by the name of a parameter. -/
theorem exists_infix_of_requiredName {n : String} (hn : n ∈ t.requiredNames)
    (hin : m <:+: n.toList) :
    ∃ r ∈ parameters, m <:+: r.parameter.name.toList ∨ m <:+: chars r.property := by
  obtain ⟨p, hp, rfl⟩ := List.mem_map.1 hn
  obtain ⟨r, hmem, hr⟩ := exists_resolved hps (List.mem_of_mem_filter hp)
  exact ⟨r, hmem, Or.inl (hr.parameter ▸ hin)⟩

theorem infix_texts_iff :
    (∃ s ∈ t.texts, m <:+: s.toList) ↔
      m <:+: t.name.toList ∨ m <:+: t.description.toList ∨
        (∃ r ∈ parameters, m <:+: r.parameter.name.toList ∨ m <:+: chars r.property) ∨
        ∃ e ∈ t.examples.find? fun e => !Text.isBlankText e.toList, m <:+: e.toList := by
  rw [infix_parameters_iff h hps]
  simp only [texts, List.cons_append, List.exists_mem_cons_iff, List.mem_append, or_and_right,
    exists_or, Option.mem_toList, Option.mem_def]

end

/-- The block of a usable tool holds what one of its texts holds. -/
theorem infix_blockText_iff {t : Tool} {parameters : List Resolved}
    (hr : t.resolve = .ok parameters) :
    m <:+: t.blockText parameters ↔ ∃ s ∈ t.texts, m <:+: s.toList := by
  obtain ⟨-, -, hps⟩ := resolve_eq_ok hr
  have hheading : m <:+: Audit.headingLine t ↔ m <:+: t.name.toList :=
    Text.infix_append_iff_of_head h.opens (by decide)
  have hslash : ∀ s, m <:+: '/' :: s ↔ m <:+: s :=
    fun s => Text.infix_append_iff_of_head (a := ['/']) h.opens (by decide)
  have hfence : ¬ m <:+: Audit.fenceLine := h.not_infix (by decide)
  have hclose : ¬ m <:+: "```".toList := h.not_infix (by decide)
  have hexample : ¬ m <:+: exampleHeading.toList := h.not_infix (by decide)
  rw [infix_texts_iff h hps, blockText_eq, Audit.header_eq, blockOpening, blockClosing]
  simp only [List.append_assoc, List.cons_append, List.nil_append,
    Text.infix_append_cons_iff h.newline_not_mem,
    Text.infix_cons_iff_of_not_mem h.ne_nil h.newline_not_mem, hheading, hslash,
    infix_descriptionLines_iff h, infix_schema_iff h, hfence, hclose, hexample, false_or, or_false]
  constructor
  · rintro (hin | hin | (hin | hin | ⟨n, hn, hin⟩) | hin | hin)
    · exact Or.inl hin
    · exact Or.inr (Or.inl hin)
    · exact Or.inl hin
    · exact Or.inr (Or.inr (Or.inl hin))
    · exact Or.inr (Or.inr (Or.inl (exists_infix_of_requiredName hps hn hin)))
    · exact Or.inl hin
    · rcases infix_exampleText_cases h t parameters with hiff | ⟨-, himp⟩
      · exact Or.inr (Or.inr (Or.inr (hiff.1 hin)))
      · exact Or.inr (Or.inr (Or.inl (himp hin)))
  · rintro (hin | hin | hin | hin)
    · exact Or.inl hin
    · exact Or.inr (Or.inl hin)
    · exact Or.inr (Or.inr (Or.inl (Or.inr (Or.inl hin))))
    · rcases infix_exampleText_cases h t parameters with hiff | ⟨hnone, -⟩
      · exact Or.inr (Or.inr (Or.inr (Or.inr (hiff.2 hin))))
      · rw [hnone] at hin
        obtain ⟨e, he, -⟩ := hin
        cases he

end

/-! ## Refused blocks -/

def carriedMarkers (t : Tool) : List String :=
  Markup.legacyMarkers.filter fun m => ∃ s ∈ t.texts, m.toList <:+: s.toList

theorem mem_carriedMarkers_iff {t : Tool} {m : String} :
    m ∈ t.carriedMarkers ↔ m ∈ Markup.legacyMarkers ∧ ∃ s ∈ t.texts, m.toList <:+: s.toList := by
  simp [carriedMarkers]

theorem findLegacy?_blockText {t : Tool} {parameters : List Resolved}
    (hr : t.resolve = .ok parameters) :
    Markup.findLegacy? (t.blockText parameters) = t.carriedMarkers.head? := by
  have hsame : ∀ m ∈ Markup.legacyMarkers, Text.contains m.toList (t.blockText parameters) =
      decide (∃ s ∈ t.texts, m.toList <:+: s.toList) := by
    intro m hm
    rw [Bool.eq_iff_iff, Text.contains_iff_infix, decide_eq_true_iff]
    exact infix_blockText_iff (Markup.lasting_of_mem hm) hr
  rw [Markup.findLegacy?, carriedMarkers, List.head?_filter]
  exact List.find?_congr hsame

/-- A usable tool is printed unless one of its texts carries a marker, and then the first marker is
reported. -/
theorem block_of_resolve {t : Tool} {parameters : List Resolved} (hr : t.resolve = .ok parameters) :
    t.block =
      match t.carriedMarkers.head? with
      | some m => .error (t.invalid (.legacyMarkup m))
      | none => .ok (String.ofList (t.blockText parameters)) := by
  have hfind := findLegacy?_blockText hr
  cases hhead : t.carriedMarkers.head? with
  | none =>
    rw [hhead] at hfind
    simp only [block, hr, hfind]
  | some m =>
    rw [hhead] at hfind
    simp only [block, hr, hfind]

theorem blockList_clean {tools : List Tool} {text : String} (h : blockList tools = .ok text) :
    ∀ m ∈ Markup.legacyMarkers, ¬ m.toList <:+: text.toList := by
  obtain ⟨parts, -, hf, htext⟩ := Audit.blockList_eq_ok h
  rw [htext]
  exact Audit.listText_clean hf

/-- Legacy markup spoils the block of a usable tool exactly if one of the tool's own texts carries a
marker, and a printed list has no marker. Printing a value and joining blocks neither make a marker nor
hide one. -/
theorem legacyMarkup_exact :
    (∀ (t : Tool) (parameters : List Resolved), t.resolve = .ok parameters →
      ((∃ m ∈ Markup.legacyMarkers, t.block = .error (t.invalid (.legacyMarkup m))) ↔
        ∃ m ∈ Markup.legacyMarkers, ∃ s ∈ t.texts, m.toList <:+: s.toList) ∧
      ((∃ text, t.block = .ok text) ↔
        ¬ ∃ m ∈ Markup.legacyMarkers, ∃ s ∈ t.texts, m.toList <:+: s.toList) ∧
      ∀ m ∈ t.carriedMarkers.head?, t.block = .error (t.invalid (.legacyMarkup m))) ∧
    (∀ tools text, blockList tools = .ok text →
      ∀ m ∈ Markup.legacyMarkers, ¬ m.toList <:+: text.toList) ∧
    ∀ m ∈ Markup.legacyMarkers,
      (∀ v : Json, m.toList <:+: chars v ↔ ∃ s ∈ v.texts, m.toList <:+: s.toList) ∧
      ∀ blocks : List (List Char),
        m.toList <:+: blockSeparator.toList.intercalate blocks ↔ ∃ b ∈ blocks, m.toList <:+: b := by
  refine ⟨fun t parameters hr => ?_, fun tools text => blockList_clean, fun m hm => ?_⟩
  · have hblock := block_of_resolve hr
    have hcarried : (∃ m ∈ Markup.legacyMarkers, ∃ s ∈ t.texts, m.toList <:+: s.toList) ↔
        ∃ m, m ∈ t.carriedMarkers := by
      simp only [mem_carriedMarkers_iff]
    rw [hcarried]
    cases hhead : t.carriedMarkers with
    | nil =>
      rw [hhead] at hblock
      have hok : t.block = .ok (String.ofList (t.blockText parameters)) := hblock
      simp [hok]
    | cons m more =>
      rw [hhead] at hblock
      have herror : t.block = .error (t.invalid (.legacyMarkup m)) := hblock
      have hm : m ∈ Markup.legacyMarkers :=
        (mem_carriedMarkers_iff.1 (hhead ▸ List.mem_cons_self)).1
      refine ⟨⟨fun _ => ⟨m, List.mem_cons_self⟩, fun _ => ⟨m, hm, herror⟩⟩, ?_, ?_⟩
      · simp [herror]
      · simp [herror]
  · have hlasting := Markup.lasting_of_mem hm
    have hseparator : ∀ c ∈ blockSeparator.toList, c ∉ m.toList := by
      rw [blockSeparator_toList]
      simpa using hlasting.newline_not_mem
    exact ⟨Json.infix_chars_iff hlasting.toApart,
      Text.infix_intercalate_iff hlasting.ne_nil (by decide) hseparator⟩

/-- A marker that shows only once the default has been read. -/
def escapedMarkup : Tool where
  name := "a"
  parameters :=
    [{ name := "p", type := "object", default := some "\x7b\"\\u003cparam>\":[1]\x7d" }]

/-- Texts that are markers but for what stands between their halves. -/
def halvedMarkup : Tool where
  name := "<tool"
  description := "name=\n<tool\nname="
  parameters := [{ name := ">", type := "string", default := some "<tool\"name=" }]
  examples := [" ", "<param\tname="]

theorem legacyMarkup_exact_escaped :
    (∃ m ∈ Markup.legacyMarkers,
        escapedMarkup.block = .error (escapedMarkup.invalid (.legacyMarkup m))) ∧
      ∃ text, halvedMarkup.block = .ok text ∧
        ∀ list, blockList [halvedMarkup, halvedMarkup] = .ok list →
          ¬ "<tool>".toList <:+: list.toList := by
  obtain ⟨hblock, hlist, -⟩ := legacyMarkup_exact
  obtain ⟨parameters, hr⟩ :=
    Except.exists_eq_ok_of_isOk (x := escapedMarkup.resolve) (by decide +kernel)
  obtain ⟨parameters', hr'⟩ :=
    Except.exists_eq_ok_of_isOk (x := halvedMarkup.resolve) (by decide +kernel)
  obtain ⟨hrefused, -, -⟩ := hblock escapedMarkup parameters hr
  obtain ⟨-, hprinted, -⟩ := hblock halvedMarkup parameters' hr'
  obtain ⟨text, htext⟩ := hprinted.2 (by decide +kernel)
  exact ⟨hrefused.2 (by decide +kernel), text, htext, fun list h => hlist _ list h _ (by decide)⟩

end Tool
end AgentPrompt
