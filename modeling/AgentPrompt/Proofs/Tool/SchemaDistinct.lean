import AgentPrompt.Proofs.Json.Unambiguous
import AgentPrompt.Proofs.Tool.SchemaReading

/-! Which parameters are required stands apart from the parameters of a schema, in the list of
required names, and is found again because no name is used twice. -/
namespace AgentPrompt

/-- The names of two types are the same only for one type or for two types of arrays. -/
theorem ParamType.name_eq_cases {type type' : ParamType} (h : type.name = type'.name) :
    type = type' ∨ ∃ item item', type = .array item ∧ type' = .array item' := by
  cases type with
  | primitive p =>
    cases type' with
    | primitive p' =>
      have hp := congrArg Primitive.parse? h
      simp only [name, Primitive.parse?_name, Option.some.injEq] at hp
      exact Or.inl (congrArg _ hp)
    | object => cases p <;> simp [name, Primitive.name] at h
    | array item => cases p <;> simp [name, Primitive.name] at h
  | object =>
    cases type' with
    | primitive p' => cases p' <;> simp [name, Primitive.name] at h
    | object => exact Or.inl rfl
    | array item => simp [name] at h
  | array item =>
    cases type' with
    | primitive p' => cases p' <;> simp [name, Primitive.name] at h
    | object => simp [name] at h
    | array item' => exact Or.inr ⟨item, item', rfl, rfl⟩

namespace Tool
open Json (chars SameMember)

/-- Two parameters of which a schema says the same. -/
structure Alike (p q : Parameter) : Prop where
  name : p.name = q.name
  type : ∃ type, ParamType.parse p.type p.items = .ok type ∧
    ParamType.parse q.type q.items = .ok type
  description : Text.trim p.description.toList = Text.trim q.description.toList
  required : p.required = q.required
  declared : p.default.isSome = q.default.isSome
  default : p.defaultValue?.map Json.print = q.defaultValue?.map Json.print

/-! ## One property -/

section
variable {r r' : Resolved}

theorem default_of_sameMembers
    (h : List.Forall₂ SameMember (r.default.map fun v => ("default", v)).toList
      (r'.default.map fun v => ("default", v)).toList) :
    r.default.map Json.print = r'.default.map Json.print := by
  cases hd : r.default with
  | none =>
    cases hd' : r'.default with
    | none => rfl
    | some v' => simp [hd, hd'] at h
  | some v =>
    cases hd' : r'.default with
    | none => simp [hd, hd'] at h
    | some v' =>
      simp only [hd, hd', Option.map_some, Option.toList_some, List.forall₂_cons, SameMember,
        true_and, List.Forall₂.nil, and_true] at h
      simp [Json.print, h]

theorem item_eq_of_chars_eq {item item' : Primitive}
    (h : chars (.object [("type", .string item.name)]) =
      chars (.object [("type", .string item'.name)])) : item = item' := by
  have hv : ∀ p : Primitive, (Json.object [("type", .string p.name)]).Valid :=
    fun p => ⟨trivial, trivial⟩
  have hmembers := Json.sameMembers_of_chars_eq (hv item) (hv item') h
  have hname := Json.string_eq_of_chars_eq (List.forall₂_cons.1 hmembers).1.2
  have hparse := congrArg Primitive.parse? hname
  simpa [Primitive.parse?_name] using hparse

/-- After the name of the type and the description come the type of the items and the default, each
only where there is one. -/
theorem type_of_sameMembers (hname : r.type.name = r'.type.name)
    (h : List.Forall₂ SameMember (r.items ++ (r.default.map fun v => ("default", v)).toList)
      (r'.items ++ (r'.default.map fun v => ("default", v)).toList)) :
    r.type = r'.type ∧ r.default.map Json.print = r'.default.map Json.print := by
  obtain ⟨p, type, default⟩ := r
  obtain ⟨p', type', default'⟩ := r'
  -- Only for two arrays does the name leave the type open; then both have a member for the items.
  rcases ParamType.name_eq_cases hname with rfl | ⟨item, item', rfl, rfl⟩
  · refine ⟨rfl, default_of_sameMembers ?_⟩
    cases type with
    | primitive type => exact h
    | object => exact h
    | array item => exact (List.forall₂_cons.1 h).2
  · obtain ⟨hitems, hdefault⟩ := List.forall₂_cons.1 h
    obtain rfl := item_eq_of_chars_eq hitems.2
    exact ⟨rfl, default_of_sameMembers hdefault⟩

/-- What the text of a property tells of its parameter. -/
theorem told_by_property (h : ∀ v ∈ r.default, v.Canonical) (h' : ∀ v ∈ r'.default, v.Canonical)
    (hsame : chars r.property = chars r'.property) :
    r.type = r'.type ∧
      Text.trim r.parameter.description.toList = Text.trim r'.parameter.description.toList ∧
      r.default.map Json.print = r'.default.map Json.print := by
  have hmembers : List.Forall₂ SameMember r.members r'.members :=
    Json.sameMembers_of_chars_eq (valid_property h) (valid_property h') hsame
  simp only [Resolved.members, List.cons_append, List.nil_append, List.forall₂_cons] at hmembers
  obtain ⟨htype, hdescription, hmore⟩ := hmembers
  obtain ⟨htype, hdefault⟩ := type_of_sameMembers (Json.string_eq_of_chars_eq htype.2) hmore
  have htrim := Json.string_eq_of_chars_eq hdescription.2
  exact ⟨htype, String.ofList_injective htrim, hdefault⟩

end

/-! ## Required names -/

theorem required_iff_mem {t : Tool} (h : (t.parameters.map (·.name)).Nodup) {p : Parameter}
    (hp : p ∈ t.parameters) : p.required = true ↔ p.name ∈ t.requiredNames := by
  rw [requiredNames, List.mem_map]
  constructor
  · exact fun hr => ⟨p, List.mem_filter.2 ⟨hp, hr⟩, rfl⟩
  · rintro ⟨q, hq, hname⟩
    obtain ⟨hq, hr⟩ := List.mem_filter.1 hq
    obtain rfl := List.inj_on_of_nodup_map h hq hp hname
    exact hr

/-! ## The whole schema -/

theorem ofStrings_eq_of_chars_eq {names names' : List String}
    (hv : (Json.ofStrings names).Valid) (hv' : (Json.ofStrings names').Valid)
    (h : chars (.ofStrings names) = chars (.ofStrings names')) : names = names' := by
  have hread := Json.reread_eq_of_chars_eq hv hv' h
  rw [Json.reread_ofStrings, Json.reread_ofStrings] at hread
  exact List.map_injective_iff.2 (fun _ _ => Json.string.inj) (Json.array.inj hread)

/-- What a printed schema tells before its properties are looked into. -/
theorem told_by_schema {a b : Tool} {parameters parameters' : List Resolved}
    (ha : a.resolve = .ok parameters) (hb : b.resolve = .ok parameters')
    (h : chars (schemaValue a parameters) = chars (schemaValue b parameters')) :
    a.name = b.name ∧ a.requiredNames = b.requiredNames ∧
      List.Forall₂ (fun r r' => r.parameter.name = r'.parameter.name ∧
        chars r.property = chars r'.property) parameters parameters' := by
  have hv := valid_schemaValue a (canonical_of_resolves (resolve_eq_ok ha).2.2)
  have hv' := valid_schemaValue b (canonical_of_resolves (resolve_eq_ok hb).2.2)
  have hmembers := Json.sameMembers_of_chars_eq hv hv' h
  obtain ⟨-, -, -, hvproperties, hvrequired, -⟩ := hv
  obtain ⟨-, -, -, hvproperties', hvrequired', -⟩ := hv'
  simp only [List.forall₂_cons] at hmembers
  obtain ⟨-, htitle, -, hproperties, hrequired, -⟩ := hmembers
  have hpairs := Json.sameMembers_of_chars_eq hvproperties hvproperties' hproperties.2
  rw [List.forall₂_map_left_iff, List.forall₂_map_right_iff] at hpairs
  exact ⟨Json.string_eq_of_chars_eq htitle.2,
    ofStrings_eq_of_chars_eq hvrequired hvrequired' hrequired.2, hpairs⟩

/-- Parameters in the same place are alike where their properties are, and where both are required
exactly if their names are listed. -/
theorem alike_of_told {ps qs : List Parameter} {parameters parameters' : List Resolved}
    {required : List String} (hps : List.Forall₂ Resolves ps parameters)
    (hqs : List.Forall₂ Resolves qs parameters')
    (hreq : ∀ p ∈ ps, p.required = true ↔ p.name ∈ required)
    (hreq' : ∀ q ∈ qs, q.required = true ↔ q.name ∈ required)
    (h : List.Forall₂ (fun r r' => r.parameter.name = r'.parameter.name ∧
      chars r.property = chars r'.property) parameters parameters') :
    List.Forall₂ Alike ps qs := by
  induction h generalizing ps qs with
  | nil =>
    cases hps
    cases hqs
    exact .nil
  | cons hsame hmore ih =>
    obtain _ | ⟨hp, hps⟩ := hps
    obtain _ | ⟨hq, hqs⟩ := hqs
    rw [List.forall_mem_cons] at hreq hreq'
    refine .cons ?_ (ih hps hqs hreq.2 hreq'.2)
    obtain ⟨hname, hproperty⟩ := hsame
    obtain ⟨htype, hdescription, hdefault⟩ := told_by_property hp.canonical hq.canonical hproperty
    rw [hp.parameter, hq.parameter] at hname hdescription
    have hdeclared := congrArg Option.isSome hdefault
    rw [Option.isSome_map, Option.isSome_map, hp.declared, hq.declared] at hdeclared
    exact {
      name := hname
      type := ⟨_, hp.type, htype ▸ hq.type⟩
      description := hdescription
      required := Bool.eq_iff_iff.2 (by rw [hreq.1, hreq'.1, hname])
      declared := hdeclared
      default := by rw [hp.defaultValue?, hq.defaultValue?, hdefault] }

/-- A schema has no control character, so it is one line, and two tools with one schema have the same
name and are alike parameter by parameter. -/
theorem schema_tells_tools_apart {a : Tool} {text : String} (ha : a.schema = .ok text) :
    (∀ c ∈ text.toList, 0x20 ≤ c.toNat) ∧
      ∀ b : Tool, b.schema = .ok text →
        a.name = b.name ∧ List.Forall₂ Alike a.parameters b.parameters := by
  obtain ⟨parameters, hr, rfl⟩ := schema_eq_ok_iff.1 ha
  constructor
  · rw [Json.print, String.toList_ofList]
    exact Json.notControl_chars _
  · intro b hb
    obtain ⟨parameters', hr', hsame⟩ := schema_eq_ok_iff.1 hb
    obtain ⟨-, hdistinct, hps⟩ := resolve_eq_ok hr
    obtain ⟨-, hdistinct', hqs⟩ := resolve_eq_ok hr'
    obtain ⟨hname, hrequired, htold⟩ := told_by_schema hr hr' (String.ofList_injective hsame).symm
    have hreq : ∀ p ∈ a.parameters, p.required = true ↔ p.name ∈ a.requiredNames :=
      fun p hp => required_iff_mem hdistinct hp
    have hreq' : ∀ q ∈ b.parameters, q.required = true ↔ q.name ∈ a.requiredNames :=
      fun q hq => hrequired ▸ required_iff_mem hdistinct' hq
    exact ⟨hname, alike_of_told hps hqs hreq hreq' htold⟩

def terseFinder : Tool where
  name := "find"
  parameters :=
    [{ name := "kinds", type := "array", required := true, description := "a\tkind" },
     { name := "depth", type := "object", default := some "\x7b\"b\":1,\"a\":[2]\x7d" }]

/-- The same schema from a declaration that spells out more. -/
def wordyFinder : Tool where
  name := "find"
  description := "Finds files."
  parameters :=
    [{ name := "kinds", type := "array", items := some "string", required := true,
       description := " a\tkind\n" },
     { name := "depth", type := "object", default := some " \x7b\"a\": [2], \"b\": 1\x7d" }]
  examples := ["\x7b\x7d"]

theorem schema_tells_tools_apart_finders :
    ∃ text, terseFinder.schema = .ok text ∧ wordyFinder.schema = .ok text ∧
      (∀ c ∈ text.toList, 0x20 ≤ c.toNat) ∧
      List.Forall₂ Alike terseFinder.parameters wordyFinder.parameters := by
  obtain ⟨parameters, hr⟩ :=
    Except.exists_eq_ok_of_isOk (x := terseFinder.resolve) (by decide +kernel)
  obtain ⟨parameters', hr'⟩ :=
    Except.exists_eq_ok_of_isOk (x := wordyFinder.resolve) (by decide +kernel)
  have hsame : (terseFinder.resolve.map fun ps => chars (schemaValue terseFinder ps)) =
      wordyFinder.resolve.map fun ps => chars (schemaValue wordyFinder ps) := by
    decide +kernel
  rw [hr, hr'] at hsame
  have hterse := schema_eq_ok_iff.2 ⟨parameters, hr, rfl⟩
  have hwordy := schema_eq_ok_iff.2
    ⟨parameters', hr', (congrArg String.ofList (Except.ok.inj hsame)).symm⟩
  obtain ⟨hline, halike⟩ := schema_tells_tools_apart hterse
  exact ⟨_, hterse, hwordy, hline, (halike wordyFinder hwordy).2⟩

end Tool
end AgentPrompt
