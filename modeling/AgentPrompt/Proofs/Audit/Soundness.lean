import AgentPrompt.Audit.ToolList

/-! A passed audit says of any text that it divides into sections, one for each tool in order, each
with a schema and an example call of its tool. -/
namespace AgentPrompt.Audit

def StartsLine (before : List Char) : Prop :=
  before = [] ∨ before.getLast? = some '\n'

theorem StartsLine.append {a b : List Char} (ha : StartsLine a) (hb : StartsLine b) :
    StartsLine (a ++ b) := by
  rcases hb with rfl | hb
  · simpa using ha
  · right
    simp [List.getLast?_append, hb]

/-- `Headed before tools texts` says that the texts, which follow `before` one after the other, are
sections of the tools: each begins with its tool's heading, as a line of its own. -/
inductive Headed : List Char → List Tool → List (List Char) → Prop
  | nil (before : List Char) : Headed before [] []
  | cons {before body : List Char} {t : Tool} {tools : List Tool} {texts : List (List Char)}
      (start : StartsLine before) (more : Headed (before ++ (header t ++ body)) tools texts) :
      Headed before (t :: tools) ((header t ++ body) :: texts)

def FencedLine (sectionText line : List Char) : Prop :=
  ∃ above below, Text.lines sectionText = above ++ fenceLine :: line :: below ∧ fenceLine ∉ above

/-- The section shows a closed schema of the known dialect that lists these values as required, and
an example call of the tool. -/
def Shows (t : Tool) (sectionText : List Char) (required : List Json) : Prop :=
  ∃ line schema, FencedLine sectionText line ∧ Json.readText line = .ok schema ∧
    schema.field "$schema" = .string Tool.schemaDialect ∧
    schema.field "additionalProperties" = .bool false ∧
    schema.field "required" = .array required ∧ exampleCall t <:+: sectionText

/-! ## Sections -/

theorem startsLine_header (t : Tool) : StartsLine (header t) :=
  Or.inr (by rw [header, List.getLast?_concat])

theorem cutAt_eq_some {part : List Char} {skip : Nat} {fresh : Bool} {s before after : List Char}
    (h : cutAt part skip fresh s = some (before, after)) :
    s = before ++ part ++ after ∧ (before = [] → fresh = true) ∧ StartsLine before := by
  induction s generalizing skip fresh before after with
  | nil => simp [cutAt] at h
  | cons c rest ih =>
    have later : ∀ k, (cutAt part k (c == '\n') rest).map (fun p => (c :: p.1, p.2)) =
        some (before, after) →
        c :: rest = before ++ part ++ after ∧ (before = [] → fresh = true) ∧ StartsLine before := by
      intro k hk
      obtain ⟨p, hp, he⟩ := Option.map_eq_some_iff.1 hk
      obtain ⟨rfl, rfl⟩ := Prod.mk.inj he
      obtain ⟨hs, hf, hl⟩ := ih hp
      refine ⟨by simp [hs], by simp, Or.inr ?_⟩
      rcases hl with hn | hl
      · rw [hn]
        simpa using hf hn
      · simp [List.getLast?_cons, hl]
    cases skip with
    | succ skip => exact later skip h
    | zero =>
      simp only [cutAt] at h
      split at h
      · rename_i hpart
        split at h
        · rename_i hfresh
          obtain ⟨rfl, rfl⟩ := Prod.mk.inj (Option.some.inj h)
          obtain ⟨more, hm⟩ := List.isPrefixOf_iff_prefix.1 hpart
          exact ⟨by simp [← hm], fun _ => hfresh, Or.inl rfl⟩
        · exact later _ h
      · exact later _ h

theorem sectionsAfter_eq_some {tools : List Tool} {pre s before : List Char}
    {texts : List (List Char)} (hp : StartsLine pre)
    (h : sectionsAfter (tools.map header) s = some (before, texts)) :
    s = before ++ texts.flatten ∧ Headed (pre ++ before) tools texts := by
  induction tools generalizing pre s before texts with
  | nil =>
    simp only [List.map_nil, sectionsAfter, Option.some.injEq, Prod.mk.injEq] at h
    obtain ⟨rfl, rfl⟩ := h
    exact ⟨by simp, .nil _⟩
  | cons t tools ih =>
    simp only [List.map_cons, sectionsAfter, Option.bind_eq_bind, Option.bind_eq_some_iff,
      Option.pure_def, Option.some.injEq, Prod.mk.injEq, Prod.exists] at h
    obtain ⟨front, after, hc, body, more, hs, rfl, rfl⟩ := h
    obtain ⟨rfl, -, hf⟩ := cutAt_eq_some hc
    have hstart : StartsLine (pre ++ front) := hp.append hf
    obtain ⟨rfl, hmore⟩ := ih (hstart.append (startsLine_header t)) hs
    refine ⟨by simp, .cons hstart ?_⟩
    simpa using hmore

/-- The sections of a text divide all of it from the first heading on. -/
theorem sections_eq_some {s : List Char} {tools : List Tool} {texts : List (List Char)}
    (h : sections s tools = some texts) :
    ∃ before, s = before ++ texts.flatten ∧ Headed before tools texts := by
  obtain ⟨⟨before, texts'⟩, hs, rfl⟩ := Option.map_eq_some_iff.1 h
  have hl : StartsLine [] := Or.inl rfl
  have hd := sectionsAfter_eq_some hl hs
  exact ⟨before, hd⟩

/-! ## One check at a time -/

theorem dropWhile_ne_of_not_mem {above below : List (List Char)} (h : fenceLine ∉ above) :
    (above ++ fenceLine :: below).dropWhile (· != fenceLine) = fenceLine :: below := by
  rw [List.dropWhile_append_of_pos]
  · simp
  · intro line hl
    have hne : line ≠ fenceLine := fun he => h (he ▸ hl)
    simpa using hne

theorem schemaLine_eq_ok_iff {sectionText line : List Char} :
    schemaLine sectionText = .ok line ↔ FencedLine sectionText line := by
  constructor
  · intro h
    unfold schemaLine at h
    split at h
    · simp at h
    · simp at h
    · rename_i d l below hd
      obtain rfl := Except.ok.inj h
      have hf : d = fenceLine := by
        have hn := List.head?_dropWhile_not (· != fenceLine) (Text.lines sectionText)
        simpa [hd] using hn
      subst hf
      refine ⟨(Text.lines sectionText).takeWhile (· != fenceLine), below, ?_, fun hm => ?_⟩
      · rw [← hd, List.takeWhile_append_dropWhile]
      · have hp := List.all_eq_true.1 List.all_takeWhile _ hm
        simp at hp
  · rintro ⟨above, below, hl, hf⟩
    simp only [schemaLine, hl, dropWhile_ne_of_not_mem hf]

theorem readSchema_eq_ok_iff {sectionText : List Char} {schema : Json} :
    readSchema sectionText = .ok schema ↔
      ∃ line, FencedLine sectionText line ∧ Json.readText line = .ok schema := by
  simp only [← schemaLine_eq_ok_iff, readSchema]
  cases schemaLine sectionText with
  | error fault => simp [bind, Except.bind]
  | ok line =>
    simp only [bind, Except.bind, Except.ok.injEq, exists_eq_left']
    cases Json.readText line <;> simp

theorem asString?_eq_some {v : Json} {s : String} (h : v.asString? = some s) : v = .string s := by
  cases v <;> simp_all [Json.asString?]

theorem asArray?_eq_some {v : Json} {items : List Json} (h : v.asArray? = some items) :
    v = .array items := by
  cases v <;> simp_all [Json.asArray?]

theorem dialectProblems_eq_nil {t : Tool} {r : Except SchemaFault Json}
    (h : dialectProblems t r = []) :
    ∃ schema, r = .ok schema ∧ schema.field "$schema" = .string Tool.schemaDialect := by
  cases r with
  | error fault => simp [dialectProblems] at h
  | ok schema =>
    simp only [dialectProblems] at h
    split at h
    · rename_i hs
      exact ⟨schema, rfl, asString?_eq_some hs⟩
    · simp at h

theorem requiredProblems_eq_nil {t : Tool} {schema : Json}
    (h : requiredProblems t (.ok schema) = []) :
    ∃ items, schema.field "required" = .array items ∧
      items.filterMap Json.asString? = t.requiredNames := by
  simp only [requiredProblems] at h
  split at h
  · rename_i hl
    obtain ⟨items, hi, hn⟩ := Option.map_eq_some_iff.1 hl
    exact ⟨items, asArray?_eq_some hi, hn⟩
  · simp at h

theorem openProblems_eq_nil {t : Tool} {schema : Json} (h : openProblems t (.ok schema) = []) :
    schema.field "additionalProperties" = .bool false := by
  simp only [openProblems] at h
  split at h
  · assumption
  · simp at h

theorem exampleProblems_eq_nil {t : Tool} {sectionText : List Char}
    (h : exampleProblems t sectionText = []) : exampleCall t <:+: sectionText := by
  simp only [exampleProblems] at h
  split at h
  · rename_i hc
    exact (Text.contains_iff_infix _ _).1 hc
  · simp at h

theorem markupCheck_passed {s : List Char} (h : (markupCheck s).passed) :
    ∀ m ∈ Markup.legacyMarkers, ¬ m.toList <:+: s := by
  rw [← Markup.findLegacy?_eq_none_iff]
  simpa [markupCheck, Check.passed] using h

/-! ## The whole report -/

theorem schemaProblems_eq_nil {problems : Tool → Except SchemaFault Json → List Problem}
    {parts : List (Tool × List Char)} (h : schemaProblems problems parts = [])
    {p : Tool × List Char} (hp : p ∈ parts) : problems p.1 (readSchema p.2) = [] :=
  List.flatMap_eq_nil_iff.1 h p hp

/-- Values whose strings are these names are the names exactly if all of them are strings. -/
theorem eq_map_string_iff {items : List Json} {names : List String}
    (h : items.filterMap Json.asString? = names) :
    items = names.map Json.string ↔ ∀ v ∈ items, ∃ name, v = .string name := by
  subst h
  constructor
  · intro he v hv
    rw [he] at hv
    obtain ⟨name, -, rfl⟩ := List.mem_map.1 hv
    exact ⟨name, rfl⟩
  · intro hs
    induction items with
    | nil => rfl
    | cons v items ih =>
      simp only [List.mem_cons, forall_eq_or_imp] at hs
      obtain ⟨⟨name, rfl⟩, hs⟩ := hs
      simpa [Json.asString?] using ih hs

/-- The text lists the tools in order: each has a section whose schema requires exactly its required
parameters, and no legacy markup stands anywhere. -/
def Lists (s : List Char) (tools : List Tool) : Prop :=
  (∀ m ∈ Markup.legacyMarkers, ¬ m.toList <:+: s) ∧
    ∃ before texts, s = before ++ texts.flatten ∧ Headed before tools texts ∧
      ∀ p ∈ tools.zip texts, Shows p.1 p.2 (p.1.requiredNames.map Json.string)

/-- A passed audit divides the text into sections that show what the tools declare, except that the
values listed as required may hold other things between the names. They are exactly the names if and
only if all of them are strings. -/
theorem passed_auditTools_sound {s : List Char} {tools : List Tool}
    (h : (auditTools s tools).passed) :
    (∀ m ∈ Markup.legacyMarkers, ¬ m.toList <:+: s) ∧
      ∃ before texts, sections s tools = some texts ∧ s = before ++ texts.flatten ∧
        Headed before tools texts ∧
        ∀ p ∈ tools.zip texts, ∃ required, Shows p.1 p.2 required ∧
          required.filterMap Json.asString? = p.1.requiredNames ∧
          (required = p.1.requiredNames.map Json.string ↔
            ∀ v ∈ required, ∃ name, v = .string name) := by
  unfold auditTools at h
  split at h
  · simp [Report.passed, Check.passed] at h
  · rename_i texts hs
    simp only [Report.passed, List.all_cons, List.all_nil, Bool.and_true, Bool.and_eq_true] at h
    obtain ⟨-, hdialect, hrequired, hopen, hexample, hmarkup⟩ := h
    simp only [Check.passed, List.isEmpty_iff] at hdialect hrequired hopen hexample
    obtain ⟨before, he, hd⟩ := sections_eq_some hs
    refine ⟨markupCheck_passed hmarkup, before, texts, hs, he, hd, fun p hp => ?_⟩
    obtain ⟨schema, hr, hdialect⟩ := dialectProblems_eq_nil (schemaProblems_eq_nil hdialect hp)
    have hrequired := schemaProblems_eq_nil hrequired hp
    have hopen := schemaProblems_eq_nil hopen hp
    rw [hr] at hrequired hopen
    obtain ⟨required, hlist, hnames⟩ := requiredProblems_eq_nil hrequired
    obtain ⟨line, hline, htext⟩ := readSchema_eq_ok_iff.1 hr
    exact ⟨required, ⟨line, schema, hline, htext, hdialect, openProblems_eq_nil hopen, hlist,
      exampleProblems_eq_nil (List.flatMap_eq_nil_iff.1 hexample p hp)⟩, hnames,
      eq_map_string_iff hnames⟩

theorem Shows.readSchema {t : Tool} {sectionText : List Char} {required : List Json}
    (h : Shows t sectionText required) :
    ∃ schema, Audit.readSchema sectionText = .ok schema ∧
      schema.field "required" = .array required := by
  obtain ⟨line, schema, hline, htext, -, -, hr, -⟩ := h
  exact ⟨schema, readSchema_eq_ok_iff.2 ⟨line, hline, htext⟩, hr⟩

def requiredText (sectionText : List Char) : String :=
  match readSchema sectionText with
  | .ok schema => (schema.field "required").print
  | .error _ => ""

theorem Shows.requiredText_eq {t : Tool} {sectionText : List Char} {required : List Json}
    (h : Shows t sectionText required) :
    requiredText sectionText = (Json.array required).print := by
  obtain ⟨schema, hs, hr⟩ := h.readSchema
  rw [requiredText, hs, ← hr]

def readTool : Tool :=
  { name := "read", parameters := [{ name := "path", type := "string", required := true }] }

/-- A section of the tool in which someone has put a number among the required names. -/
def paddedSection : String :=
  "## read\n```json\n" ++
  "\x7b\"$schema\":\"http://json-schema.org/draft-07/schema#\"," ++
  "\"additionalProperties\":false,\"required\":[\"path\",1]\x7d\n" ++
  "**Example:**\n/read\n```json\n"

theorem headed_paddedSection {before : List Char} {texts : List (List Char)}
    (hs : paddedSection.toList = before ++ texts.flatten) (h : Headed before [readTool] texts) :
    texts = [paddedSection.toList] := by
  cases h with
  | cons start more =>
    rename_i body texts
    cases more
    have hfirst : ∀ i ≤ paddedSection.toList.length,
        (header readTool).isPrefixOf (paddedSection.toList.drop i) = true → i = 0 := by
      decide +kernel
    have hb := hfirst before.length (by rw [hs]; simp) (by rw [hs]; simp)
    obtain rfl := List.length_eq_zero_iff.1 hb
    simpa using hs.symm

theorem paddedSection_passed : (auditTools paddedSection.toList [readTool]).passed := by
  decide +kernel

theorem passed_auditTools_sound_paddedSection :
    (auditTools paddedSection.toList [readTool]).passed ∧
      ∃ texts, sections paddedSection.toList [readTool] = some texts ∧
        ∀ p ∈ [readTool].zip texts, ∃ required, Shows p.1 p.2 required ∧
          required.filterMap Json.asString? = p.1.requiredNames := by
  obtain ⟨-, -, texts, hs, -, -, hshows⟩ := passed_auditTools_sound paddedSection_passed
  refine ⟨paddedSection_passed, texts, hs, fun p hp => ?_⟩
  obtain ⟨required, hr, hn, -⟩ := hshows p hp
  exact ⟨required, hr, hn⟩

/-- The audit passes a section whose list of required names is not the tool's. -/
theorem passed_auditTools_padded :
    (auditTools paddedSection.toList [readTool]).passed = true ∧
      ¬ Lists paddedSection.toList [readTool] := by
  refine ⟨paddedSection_passed, ?_⟩
  rintro ⟨-, before, texts, hs, hd, hshows⟩
  obtain rfl := headed_paddedSection hs hd
  have hr := (hshows (readTool, paddedSection.toList) (by simp)).requiredText_eq
  exact absurd hr (by decide +kernel)

end AgentPrompt.Audit
