import AgentPrompt.Proofs.Audit.Agreement
import AgentPrompt.Proofs.Tool.LegacyMarkup

/-! The relation `Json.Conforms` reads the keywords of a schema and knows nothing of tools. -/
namespace AgentPrompt
namespace Json

/-- The values of a type, by the name that a schema has for it. -/
inductive OfType : String → Json → Prop
  | string (s : String) : OfType "string" (.string s)
  | integer (n : Int) : OfType "integer" (.number (.int n))
  | number (n : Number) : OfType "number" (.number n)
  | boolean (b : Bool) : OfType "boolean" (.bool b)
  | object (members : List (String × Json)) : OfType "object" (.object members)
  | array (items : List Json) : OfType "array" (.array items)

/-- The values that a schema takes. A keyword that is not there asks nothing of them. -/
inductive Conforms : Json → Json → Prop
  | intro {schema v : Json}
      (type : ∀ name, schema.field "type" = .string name → OfType name v)
      (items : ∀ item ws, schema.field "items" = .object item → v = .array ws →
        ∀ w ∈ ws, Conforms (.object item) w)
      (properties : ∀ members ms, schema.field "properties" = .object members → v = .object ms →
        ∀ m ∈ ms, ∀ property, (m.1, property) ∈ members → Conforms property m.2)
      (required : ∀ names ms, schema.field "required" = .array names → v = .object ms →
        ∀ name, .string name ∈ names → name ∈ ms.map Prod.fst)
      (closed : ∀ members ms, schema.field "additionalProperties" = .bool false →
        schema.field "properties" = .object members → v = .object ms →
          ∀ m ∈ ms, m.1 ∈ members.map Prod.fst) :
      Conforms schema v

def memberKeywords : List String :=
  ["properties", "required", "additionalProperties"]

/-- A schema that says nothing of members asks for a type and for the type of items only. -/
theorem conforms_of_memberless {schema v : Json}
    (h : ∀ key ∈ memberKeywords, schema.field key = .null)
    (type : ∀ name, schema.field "type" = .string name → OfType name v)
    (items : ∀ item ws, schema.field "items" = .object item → v = .array ws →
      ∀ w ∈ ws, Conforms (.object item) w) : Conforms schema v := by
  have hproperties : schema.field "properties" = .null := h _ (by simp [memberKeywords])
  have hrequired : schema.field "required" = .null := h _ (by simp [memberKeywords])
  refine .intro type items (fun members ms hf => ?_) (fun names ms hf => ?_)
    (fun members ms _ hf => ?_)
  · rw [hproperties] at hf
    cases hf
  · rw [hrequired] at hf
    cases hf
  · rw [hproperties] at hf
    cases hf

end Json

namespace Tool
open Json (OfType Conforms chars)

/-- A property that declares a parameter's type, with the type of the items of an array, and whose
default is a value of the property itself. -/
structure SoundProperty (p : Parameter) (members : List (String × Json)) : Prop where
  type : ∃ type, ParamType.parse p.type p.items = .ok type ∧
    (Json.object members).field "type" = .string type.name ∧
    ∀ item, type = .array item →
      (Json.object members).field "items" = .object [("type", .string item.name)]
  default : ∀ v, ("default", v) ∈ members → Conforms (.object members) v

/-- A schema with a property for each parameter, in the order of the parameters. -/
structure SoundSchema (t : Tool) (schema : Json) (properties : List (String × Json)) : Prop where
  field : schema.field "properties" = .object properties
  sound : List.Forall₂ (fun p m => m.1 = p.name ∧ ∃ members, m.2 = .object members ∧
    SoundProperty p members) t.parameters properties

/-- A call that gives every required parameter once, in order, with a value of its property. It is
the default where there is one. -/
structure SoundCall (t : Tool) (properties call : List (String × Json)) : Prop where
  keys : call.map Prod.fst = t.requiredNames
  distinct : t.requiredNames.Nodup
  value : ∀ m ∈ call, ∃ members, (m.1, .object members) ∈ properties ∧
    Conforms (.object members) m.2 ∧ ∀ v, ("default", v) ∈ members → m.2 = v

/-! ## One parameter -/

theorem ofType_of_accepts_primitive {type : Primitive} {v : Json} (h : type.accepts v) :
    OfType type.name v := by
  unfold Primitive.accepts at h
  split at h
  · exact .string _
  · exact .integer _
  · exact .number _
  · exact .boolean _
  · cases h

theorem conforms_items {type : Primitive} {v : Json} (h : type.accepts v) :
    Conforms (.object [("type", .string type.name)]) v := by
  refine Json.conforms_of_memberless (by simp [Json.memberKeywords, Json.field]) ?_ ?_
  · intro name hname
    obtain rfl : type.name = name := by simpa [Json.field] using hname
    exact ofType_of_accepts_primitive h
  · intro item ws hitems
    simp [Json.field] at hitems

theorem field_type_property (r : Resolved) :
    r.property.field "type" = .string r.type.name := by
  obtain ⟨p, type, default⟩ := r
  cases type <;> cases default <;> simp [Resolved.property, Resolved.items, Json.field]

theorem field_items_property (r : Resolved) :
    r.property.field "items" =
      match r.type with
      | .array item => .object [("type", .string item.name)]
      | _ => .null := by
  obtain ⟨p, type, default⟩ := r
  cases type <;> cases default <;> simp [Resolved.property, Resolved.items, Json.field]

theorem field_property_eq_null (r : Resolved) :
    ∀ key ∈ Json.memberKeywords, r.property.field key = .null := by
  obtain ⟨p, type, default⟩ := r
  cases type <;> cases default <;>
    simp [Resolved.property, Resolved.items, Json.field, Json.memberKeywords]

/-- The printed property takes the values that the parameter's type takes. -/
theorem conforms_property {r : Resolved} {v : Json} (h : r.type.accepts v) :
    Conforms r.property v := by
  refine Json.conforms_of_memberless (field_property_eq_null r) ?_ ?_
  · intro name hname
    obtain rfl : r.type.name = name := by simpa [field_type_property] using hname
    unfold ParamType.accepts at h
    split at h
    · rename_i type _ htype
      rw [htype]
      exact ofType_of_accepts_primitive h
    · rename_i htype
      rw [htype]
      exact .object _
    · rename_i htype
      rw [htype]
      exact .array _
    · cases h
  · rintro item ws hitems rfl w hw
    rw [field_items_property] at hitems
    cases htype : r.type with
    | primitive type => simp [htype] at hitems
    | object => simp [htype] at hitems
    | array type =>
      obtain rfl : [("type", .string type.name)] = item := by simpa [htype] using hitems
      rw [htype] at h
      exact conforms_items (List.all_eq_true.1 h w hw)

theorem Resolves.accepts_default {p : Parameter} {r : Resolved} (h : Resolves p r) :
    ∀ v ∈ r.default, r.type.accepts v := by
  intro v hv
  rw [h.default] at hv
  obtain ⟨text, -, htext⟩ := Option.bind_eq_some_iff.1 hv
  exact ParamType.accepts_defaultValue? htext

theorem Resolves.accepts_sample {p : Parameter} {r : Resolved} (h : Resolves p r) :
    r.type.accepts r.sample := by
  unfold Resolved.sample
  split
  · rename_i v hv
    exact h.accepts_default v hv
  · split
    all_goals
      rename_i htype
      rw [htype]
      rfl

theorem default_mem_members_iff {r : Resolved} {v : Json} :
    ("default", v) ∈ r.members ↔ r.default = some v := by
  simp [mem_members_iff]

theorem Resolves.soundProperty {p : Parameter} {r : Resolved} (h : Resolves p r) :
    SoundProperty p r.members := by
  refine ⟨⟨r.type, h.type, field_type_property r, fun item htype => ?_⟩, fun v hv => ?_⟩
  · rw [← Resolved.property_eq, field_items_property, htype]
  · exact conforms_property (h.accepts_default v (default_mem_members_iff.1 hv))

/-! ## All parameters -/

theorem field_properties_schema (t : Tool) (parameters : List Resolved) :
    (schemaValue t parameters).field "properties" =
      .object (parameters.map fun r => (r.parameter.name, r.property)) := by
  simp [schemaValue, Json.field]

theorem field_type_schema (t : Tool) (parameters : List Resolved) :
    (schemaValue t parameters).field "type" = .string "object" := by
  simp [schemaValue, Json.field]

theorem field_required_schema (t : Tool) (parameters : List Resolved) :
    (schemaValue t parameters).field "required" = .ofStrings t.requiredNames := by
  simp [schemaValue, Json.field]

theorem field_items_schema (t : Tool) (parameters : List Resolved) :
    (schemaValue t parameters).field "items" = .null := by
  simp [schemaValue, Json.field]

def sampleMembers (parameters : List Resolved) : List (String × Json) :=
  (parameters.filter (·.parameter.required)).map fun r => (r.parameter.name, r.sample)

theorem sampleCall_eq (parameters : List Resolved) :
    sampleCall parameters = .object (sampleMembers parameters) :=
  rfl

section
variable {t : Tool} {parameters : List Resolved}

theorem soundSchema (hr : List.Forall₂ Resolves t.parameters parameters) :
    t.SoundSchema (schemaValue t parameters)
      (parameters.map fun r => (r.parameter.name, r.property)) := by
  refine ⟨field_properties_schema t parameters, List.forall₂_map_right_iff.2 ?_⟩
  refine hr.imp fun p r h => ⟨by rw [h.parameter], r.members, Resolved.property_eq r, ?_⟩
  exact h.soundProperty

theorem map_fst_sampleMembers (hr : List.Forall₂ Resolves t.parameters parameters) :
    (sampleMembers parameters).map Prod.fst = t.requiredNames := by
  rw [requiredNames, ← map_parameter hr, List.filter_map, List.map_map, sampleMembers, List.map_map]
  rfl

theorem mem_resolved (hr : List.Forall₂ Resolves t.parameters parameters) {r : Resolved}
    (h : r ∈ parameters) : ∃ p ∈ t.parameters, Resolves p r := by
  obtain ⟨i, hi, rfl⟩ := List.getElem_of_mem h
  have hlength := hr.length_eq
  exact ⟨t.parameters[i], List.getElem_mem _, hr.get (by omega) hi⟩

theorem soundCall (hr : List.Forall₂ Resolves t.parameters parameters)
    (hnames : (t.parameters.map (·.name)).Nodup) :
    t.SoundCall (parameters.map fun r => (r.parameter.name, r.property))
      (sampleMembers parameters) := by
  refine ⟨map_fst_sampleMembers hr, hnames.sublist (List.filter_sublist.map _), fun m hm => ?_⟩
  obtain ⟨r, hrequired, rfl⟩ := List.mem_map.1 hm
  have hmem : r ∈ parameters := List.mem_of_mem_filter hrequired
  obtain ⟨p, -, hp⟩ := mem_resolved hr hmem
  refine ⟨r.members, List.mem_map.2 ⟨r, hmem, rfl⟩, conforms_property hp.accepts_sample, ?_⟩
  intro v hv
  simp only [Resolved.sample, default_mem_members_iff.1 hv]

/-- The names of the properties tell them apart. -/
theorem property_unique (hr : List.Forall₂ Resolves t.parameters parameters)
    (hnames : (t.parameters.map (·.name)).Nodup) {r : Resolved} (h : r ∈ parameters)
    {property : Json}
    (hp : (r.parameter.name, property) ∈ parameters.map fun r => (r.parameter.name, r.property)) :
    property = r.property := by
  obtain ⟨r', h', heq⟩ := List.mem_map.1 hp
  obtain ⟨hname, rfl⟩ := Prod.mk.inj heq
  have hinj : (parameters.map (·.parameter.name)).Nodup := by
    rwa [← map_parameter hr, List.map_map] at hnames
  rw [List.inj_on_of_nodup_map hinj h' h hname]

/-- The whole schema takes the made-up call. -/
theorem conforms_schema (hr : List.Forall₂ Resolves t.parameters parameters)
    (hnames : (t.parameters.map (·.name)).Nodup) :
    Conforms (schemaValue t parameters) (sampleCall parameters) := by
  rw [sampleCall_eq]
  refine .intro ?_ ?_ ?_ ?_ ?_
  · intro name hname
    obtain rfl : "object" = name := by simpa [field_type_schema] using hname
    exact .object _
  · intro item ws hitems
    simp [field_items_schema] at hitems
  · rintro members ms hproperties ⟨⟩ m hm property hp
    obtain rfl : (parameters.map fun r => (r.parameter.name, r.property)) = members := by
      simpa [field_properties_schema] using hproperties
    obtain ⟨r, hrequired, rfl⟩ := List.mem_map.1 hm
    have hmem : r ∈ parameters := List.mem_of_mem_filter hrequired
    obtain ⟨p, -, hres⟩ := mem_resolved hr hmem
    rw [property_unique hr hnames hmem hp]
    exact conforms_property hres.accepts_sample
  · rintro names ms hrequired ⟨⟩ name hname
    obtain rfl : t.requiredNames.map Json.string = names := by
      simpa [field_required_schema, Json.ofStrings] using hrequired
    rw [map_fst_sampleMembers hr]
    simpa using hname
  · rintro members ms - hproperties ⟨⟩ m hm
    obtain rfl : (parameters.map fun r => (r.parameter.name, r.property)) = members := by
      simpa [field_properties_schema] using hproperties
    obtain ⟨r, hrequired, rfl⟩ := List.mem_map.1 hm
    exact List.mem_map.2 ⟨_, List.mem_map.2 ⟨r, List.mem_of_mem_filter hrequired, rfl⟩, rfl⟩

end

/-! ## What is printed -/

def exampleOpening (t : Tool) : List Char :=
  "\n```\n\n".toList ++ exampleHeading.toList ++ "\n/".toList ++ t.name.toList ++ ['\n'] ++
    fence.toList

/-- A block up to its schema. -/
def blockHead (t : Tool) : List Char :=
  "## ".toList ++ t.name.toList ++ ['\n'] ++ t.descriptionLines ++ ['\n'] ++ fence.toList

theorem blockText_eq_printed (t : Tool) (parameters : List Resolved) :
    t.blockText parameters =
      t.blockHead ++ chars (schemaValue t parameters) ++ t.exampleOpening ++
        t.exampleText parameters ++ "\n```".toList := by
  unfold exampleOpening blockText blockHead
  -- Which characters the fixed texts have does not matter here.
  generalize "## ".toList = heading, fence.toList = fenced, "\n```\n\n".toList = closing,
    exampleHeading.toList = lead, "\n/".toList = slash, "\n```".toList = last
  simp only [List.append_assoc]

theorem exampleText_of_blank {t : Tool} (h : ∀ e ∈ t.examples, Text.isBlankText e.toList)
    (parameters : List Resolved) :
    t.exampleText parameters = chars (.object (sampleMembers parameters)) := by
  have hnone : t.writtenExample? = none := by
    rw [writtenExample?_eq, Option.map_eq_none_iff, List.find?_eq_none]
    intro e he
    simp [h e he]
  rw [exampleText, hnone, Option.getD_none, sampleCall_eq]

/-- A printed schema declares the type of every parameter and its defaults are values of their own
properties. A block without a written example ends in a call that the schema above it takes: the
required parameters in order, each with its default or another value of its property. -/
theorem sampleCall_conforms (t : Tool) :
    (∀ text, t.schema = .ok text →
      ∃ schema properties, text = Json.print schema ∧ t.SoundSchema schema properties) ∧
    ∀ text, t.block = .ok text → (∀ e ∈ t.examples, Text.isBlankText e.toList) →
      ∃ schema properties call opening,
        t.schema = .ok schema.print ∧ t.SoundSchema schema properties ∧
        text.toList = opening ++ chars schema ++ t.exampleOpening ++ chars (.object call) ++
          "\n```".toList ∧
        t.SoundCall properties call ∧ Conforms schema (.object call) := by
  refine ⟨fun text htext => ?_, fun text htext hblank => ?_⟩
  · obtain ⟨parameters, hr, rfl⟩ := schema_eq_ok_iff.1 htext
    exact ⟨_, _, rfl, soundSchema (resolve_eq_ok hr).2.2⟩
  · obtain ⟨parameters, hr, htext, -⟩ := Audit.block_eq_ok htext
    obtain ⟨-, hnames, hres⟩ := resolve_eq_ok hr
    refine ⟨schemaValue t parameters, _, sampleMembers parameters, t.blockHead,
      schema_eq_ok_iff.2 ⟨parameters, hr, rfl⟩, soundSchema hres, ?_, soundCall hres hnames,
      conforms_schema hres hnames⟩
    rw [htext, blockText_eq_printed, exampleText_of_blank hblank]

/-- Required and optional parameters of many types, with and without defaults. -/
def assortedTool : Tool where
  name := "a"
  parameters :=
    [{ name := "s", type := "string", required := true },
      { name := "l", type := "array", required := true, items := some "integer",
        default := some " [1, 2]" },
      { name := "f", type := "boolean", default := some "true" },
      { name := "o", type := "object", required := true, default := some "\x7b\"k\":[]\x7d" }]
  examples := [" "]

theorem sampleCall_conforms_assorted :
    (∃ text, assortedTool.schema = .ok text ∧
      ∃ schema properties, text = Json.print schema ∧ assortedTool.SoundSchema schema properties) ∧
    ∃ schema properties call, assortedTool.SoundSchema schema properties ∧
      assortedTool.SoundCall properties call ∧ Conforms schema (.object call) := by
  obtain ⟨hschema, hblock⟩ := sampleCall_conforms assortedTool
  obtain ⟨text, htext⟩ := Except.exists_eq_ok_of_isOk (x := assortedTool.schema) (by decide +kernel)
  obtain ⟨block, hprinted⟩ := Except.exists_eq_ok_of_isOk (x := assortedTool.block)
    (by decide +kernel)
  refine ⟨⟨text, htext, hschema text htext⟩, ?_⟩
  obtain ⟨schema, properties, call, -, -, hsound, -, hcall, hconforms⟩ :=
    hblock block hprinted (by simp [assortedTool, Text.isBlankText, Text.isBlank])
  exact ⟨schema, properties, call, hsound, hcall, hconforms⟩

end Tool
end AgentPrompt
