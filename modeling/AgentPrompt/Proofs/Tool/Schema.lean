import AgentPrompt.Proofs.Json.Canonical
import AgentPrompt.Proofs.Json.Printed
import AgentPrompt.Tool.Schema

namespace AgentPrompt.Tool
open Json (chars readText)

theorem canonical_defaultValue? {type : ParamType} {text : String} {v : Json}
    (h : type.defaultValue? text = some v) : v.Canonical := by
  unfold ParamType.defaultValue? at h
  split at h
  · obtain rfl := Option.some.inj h
    exact .string text
  · split at h
    · rename_i w hread
      split at h
      · obtain rfl := Option.some.inj h
        exact Json.canonical_of_readText hread
      · simp at h
    · simp at h

/-- A usable parameter has a type, and a default exactly if its text is a value of that type. -/
structure Resolves (p : Parameter) (r : Resolved) : Prop where
  parameter : r.parameter = p
  type : ParamType.parse p.type p.items = .ok r.type
  default : r.default = p.default.bind r.type.defaultValue?
  declared : r.default.isSome = p.default.isSome

theorem resolves_of_resolveParameter {p : Parameter} {r : Resolved}
    (h : resolveParameter p = .ok r) : Resolves p r := by
  simp only [resolveParameter] at h
  split at h
  · simp at h
  · rename_i type htype
    split at h
    · rename_i hnone
      obtain rfl := Except.ok.inj h
      exact ⟨rfl, htype, by simp [hnone], by simp [hnone]⟩
    · rename_i text htext
      split at h
      · rename_i v hv
        obtain rfl := Except.ok.inj h
        exact ⟨rfl, htype, by simp [htext, hv], by simp [htext]⟩
      · simp at h

theorem Resolves.canonical {p : Parameter} {r : Resolved} (h : Resolves p r) :
    ∀ v ∈ r.default, v.Canonical := by
  intro v hv
  rw [h.default] at hv
  obtain ⟨text, -, htext⟩ := Option.bind_eq_some_iff.1 hv
  exact canonical_defaultValue? htext

theorem resolveAfter_eq_ok {seen : List String} {parameters : List Parameter}
    {resolved : List Resolved} (h : resolveAfter seen parameters = .ok resolved) :
    (parameters.map (·.name)).Nodup ∧ (∀ p ∈ parameters, p.name ∉ seen) ∧
      List.Forall₂ Resolves parameters resolved := by
  induction parameters generalizing seen resolved with
  | nil =>
    obtain rfl := Except.ok.inj h
    simp
  | cons p parameters ih =>
    simp only [resolveAfter] at h
    split at h
    · simp at h
    · split at h
      · simp at h
      · rename_i hseen
        simp only [Except.bind_eq_ok_iff, Except.ok.injEq] at h
        obtain ⟨r, hr, more, hmore, rfl⟩ := h
        obtain ⟨hnames, hnew, hall⟩ := ih hmore
        refine ⟨List.nodup_cons.2 ⟨?_, hnames⟩, List.forall_mem_cons.2 ⟨hseen, ?_⟩,
          .cons (resolves_of_resolveParameter hr) hall⟩
        · intro hmem
          obtain ⟨q, hq, hname⟩ := List.mem_map.1 hmem
          exact hnew q hq (by simp [hname])
        · exact fun q hq hmem => hnew q hq (List.mem_cons_of_mem _ hmem)

/-- The name of a usable tool has no blank, and its parameters are usable and have different
names. -/
theorem resolve_eq_ok {t : Tool} {parameters : List Resolved} (h : t.resolve = .ok parameters) :
    (∀ c ∈ t.name.toList, Text.isBlank c = false) ∧ (t.parameters.map (·.name)).Nodup ∧
      List.Forall₂ Resolves t.parameters parameters := by
  simp only [resolve] at h
  split at h
  · simp at h
  · split at h
    · simp at h
    · rename_i hblank
      obtain ⟨hnames, -, hall⟩ := resolveAfter_eq_ok h
      exact ⟨by simpa using hblank, hnames, hall⟩

theorem canonical_of_resolves {ps : List Parameter} {parameters : List Resolved}
    (h : List.Forall₂ Resolves ps parameters) :
    ∀ r ∈ parameters, ∀ v ∈ r.default, v.Canonical := by
  induction h with
  | nil => simp
  | cons hr _ ih => exact List.forall_mem_cons.2 ⟨hr.canonical, ih⟩

theorem eq_nil_of_resolve {t : Tool} {parameters : List Resolved} (hp : t.parameters = [])
    (h : t.resolve = .ok parameters) : parameters = [] := by
  simp only [resolve, hp, resolveAfter] at h
  split at h
  · simp at h
  · split at h
    · simp at h
    · exact (Except.ok.inj h).symm

/-- The members of a parameter's property as they are printed. -/
def Resolved.members (r : Resolved) : List (String × Json) :=
  [("type", .string r.type.name),
    ("description", .string (String.ofList (Text.trim r.parameter.description.toList)))] ++
  r.items ++ (r.default.map fun v => ("default", v)).toList

theorem Resolved.property_eq (r : Resolved) : r.property = .object r.members :=
  rfl

theorem mem_items_iff {r : Resolved} {m : String × Json} :
    m ∈ r.items ↔
      ∃ item, r.type = .array item ∧ m = ("items", .object [("type", .string item.name)]) := by
  obtain ⟨p, type, default⟩ := r
  cases type with
  | primitive type => simp [Resolved.items]
  | object => simp [Resolved.items]
  | array item => simp [Resolved.items]

theorem mem_members_iff {r : Resolved} {m : String × Json} :
    m ∈ r.members ↔ m = ("type", .string r.type.name) ∨
      m = ("description", .string (String.ofList (Text.trim r.parameter.description.toList))) ∨
      (∃ item, r.type = .array item ∧ m = ("items", .object [("type", .string item.name)])) ∨
      ∃ v, r.default = some v ∧ ("default", v) = m := by
  simp only [Resolved.members, List.mem_append, List.mem_cons, List.not_mem_nil, or_false,
    mem_items_iff, Option.mem_toList, Option.map_eq_some_iff, or_assoc]

theorem valid_property {r : Resolved} (h : ∀ v ∈ r.default, v.Canonical) : r.property.Valid := by
  show Json.ValidMembers r.members
  rw [Json.validMembers_iff]
  intro m hm
  rcases mem_members_iff.1 hm with rfl | rfl | ⟨item, -, rfl⟩ | ⟨v, hv, rfl⟩
  · exact trivial
  · exact trivial
  · exact ⟨trivial, trivial⟩
  · exact (h v hv).valid

theorem valid_schemaValue (t : Tool) {parameters : List Resolved}
    (h : ∀ r ∈ parameters, ∀ v ∈ r.default, v.Canonical) : (schemaValue t parameters).Valid := by
  have hproperties :
      Json.ValidMembers (parameters.map fun r => (r.parameter.name, r.property)) := by
    rw [Json.validMembers_iff]
    intro m hm
    obtain ⟨r, hr, rfl⟩ := List.mem_map.1 hm
    exact valid_property (h r hr)
  have hrequired : Json.ValidItems (t.requiredNames.map Json.string) := by
    rw [Json.validItems_iff]
    intro v hv
    obtain ⟨name, -, rfl⟩ := List.mem_map.1 hv
    exact trivial
  exact ⟨trivial, trivial, trivial, hproperties, hrequired, trivial, trivial⟩

/-- The schema nests no deeper than the reader allows. -/
def Readable (t : Tool) : Prop :=
  ∀ parameters, t.resolve = .ok parameters →
    (schemaValue t parameters).depth ≤ Json.nestingLimit

instance (t : Tool) : Decidable t.Readable :=
  decidable_of_iff (∀ parameters ∈ t.resolve.toOption,
      (schemaValue t parameters).depth ≤ Json.nestingLimit) <| by
    rw [Readable]
    cases t.resolve <;> simp [Except.toOption]

section
variable {t : Tool} {parameters : List Resolved}

theorem readText_schema (h : t.resolve = .ok parameters) (hd : t.Readable) :
    readText (chars (schemaValue t parameters)) = .ok (schemaValue t parameters).reread :=
  Json.readText_chars (valid_schemaValue t (canonical_of_resolves (resolve_eq_ok h).2.2))
    (hd parameters h)

/-- A field of the schema as it is read. -/
theorem field_schema {key : String} {v : Json}
    (h : (key, v) ∈
      [("$schema", Json.string schemaDialect), ("title", .string t.name), ("type", .string "object"),
        ("properties", .object (parameters.map fun r => (r.parameter.name, r.property))),
        ("required", .ofStrings t.requiredNames), ("additionalProperties", .bool false)]) :
    (schemaValue t parameters).reread.field key = v.reread :=
  Json.field_reread (by simp) h

theorem field_dialect :
    (schemaValue t parameters).reread.field "$schema" = .string schemaDialect :=
  field_schema (v := .string schemaDialect) (by simp)

theorem field_required :
    (schemaValue t parameters).reread.field "required" = .ofStrings t.requiredNames := by
  have h : (schemaValue t parameters).reread.field "required" =
      (Json.ofStrings t.requiredNames).reread := field_schema (by simp)
  rw [h, Json.reread_ofStrings]

theorem field_closed :
    (schemaValue t parameters).reread.field "additionalProperties" = .bool false :=
  field_schema (v := .bool false) (by simp)

end

end AgentPrompt.Tool
