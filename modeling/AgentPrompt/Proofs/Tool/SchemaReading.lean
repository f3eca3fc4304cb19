import AgentPrompt.Proofs.Json.Nesting
import AgentPrompt.Proofs.Text.Trim
import AgentPrompt.Proofs.Tool.Schema

/-! A default is read by itself when a tool is checked, and again inside the schema, three levels
deeper. -/
namespace AgentPrompt

def Parameter.defaultValue? (p : Parameter) : Option Json :=
  match ParamType.parse p.type p.items with
  | .ok type => p.default.bind type.defaultValue?
  | .error _ => none

namespace Tool
open Json (chars readText)

/-- Every default leaves room for the three levels of the schema around it. -/
def Shallow (t : Tool) : Prop :=
  ∀ p ∈ t.parameters, ∀ v ∈ p.defaultValue?, v.depth + 3 ≤ Json.nestingLimit

instance (t : Tool) : Decidable t.Shallow :=
  inferInstanceAs (Decidable (∀ p ∈ t.parameters, ∀ v ∈ p.defaultValue?,
    v.depth + 3 ≤ Json.nestingLimit))

/-- Members that say of a parameter all there is to say and nothing else. -/
structure DescribedBy (p : Parameter) (members : List (String × Json)) : Prop where
  sorted : Json.SortedKeys members
  keys : ∀ m ∈ members, m.1 ∈ ["type", "description", "items", "default"]
  description : ("description", .string (String.ofList (Text.trim p.description.toList))) ∈ members
  type : ∃ type, ParamType.parse p.type p.items = .ok type ∧
    ("type", .string type.name) ∈ members ∧
    ∀ v, ("items", v) ∈ members ↔
      ∃ item, type = .array item ∧ v = .object [("type", .string item.name)]
  declared : "default" ∈ members.map Prod.fst ↔ p.default.isSome
  default : ∀ text, p.default = some text → ∃ v w, p.defaultValue? = some v ∧
    ("default", w) ∈ members ∧ (v.Whole → w = v)

/-- A value that says what the tool says: its name, its required names, and of each parameter its
type, its description and its default. -/
structure SaidBy (t : Tool) (v : Json) : Prop where
  dialect : v.field "$schema" = .string schemaDialect
  title : v.field "title" = .string t.name
  type : v.field "type" = .string "object"
  required : v.field "required" = .ofStrings t.requiredNames
  closed : v.field "additionalProperties" = .bool false
  properties : ∃ members, v.field "properties" = .object members ∧ Json.SortedKeys members ∧
    (∀ name, name ∈ members.map Prod.fst ↔ name ∈ t.parameters.map (·.name)) ∧
    ∀ p ∈ t.parameters, ∃ property, (p.name, .object property) ∈ members ∧ DescribedBy p property

/-! ## Usable parameters -/

theorem Resolves.defaultValue? {p : Parameter} {r : Resolved} (h : Resolves p r) :
    p.defaultValue? = r.default := by
  rw [Parameter.defaultValue?, h.type, h.default]

section
variable {ps : List Parameter} {parameters : List Resolved}

theorem map_parameter (h : List.Forall₂ Resolves ps parameters) :
    parameters.map (·.parameter) = ps := by
  induction h with
  | nil => rfl
  | cons hr _ ih => rw [List.map_cons, hr.parameter, ih]

theorem exists_resolved (h : List.Forall₂ Resolves ps parameters) {p : Parameter} (hp : p ∈ ps) :
    ∃ r ∈ parameters, Resolves p r := by
  induction h with
  | nil => cases hp
  | cons hr _ ih =>
    rcases List.mem_cons.1 hp with rfl | hp
    · exact ⟨_, List.mem_cons_self, hr⟩
    · obtain ⟨r, hmem, hr⟩ := ih hp
      exact ⟨r, List.mem_cons_of_mem _ hmem, hr⟩

theorem forall_default_iff (h : List.Forall₂ Resolves ps parameters) (P : Json → Prop) :
    (∀ p ∈ ps, ∀ v ∈ p.defaultValue?, P v) ↔ ∀ r ∈ parameters, ∀ v ∈ r.default, P v := by
  induction h with
  | nil => simp
  | cons hr _ ih => rw [List.forall_mem_cons, List.forall_mem_cons, ih, hr.defaultValue?]

end

/-! ## One property -/

theorem nodup_members (r : Resolved) : (r.members.map Prod.fst).Nodup := by
  obtain ⟨p, type, default⟩ := r
  cases type <;> cases default <;> simp [Resolved.members, Resolved.items]

def Resolved.reread (r : Resolved) : Resolved :=
  { r with default := r.default.map Json.reread }

theorem map_reread_members (r : Resolved) :
    (r.members.map fun m => (m.1, m.2.reread)) = r.reread.members := by
  obtain ⟨p, type, default⟩ := r
  cases type <;> cases default <;>
    simp [Resolved.members, Resolved.items, Resolved.reread, Json.reread, Json.rereadMembers,
      Json.insertMember, ParamType.name]

def Resolved.readMembers (r : Resolved) : List (String × Json) :=
  Json.rereadMembers [] r.members

theorem readMembers_perm (r : Resolved) : r.readMembers.Perm r.reread.members := by
  rw [← map_reread_members]
  exact Json.rereadMembers_perm (nodup_members r)

theorem describedBy_readMembers {p : Parameter} {r : Resolved} (h : Resolves p r) :
    DescribedBy p r.readMembers := by
  have hmem : ∀ m, m ∈ r.readMembers ↔ m ∈ r.reread.members :=
    fun m => (readMembers_perm r).mem_iff
  have hp : r.reread.parameter = p := h.parameter
  refine ⟨Json.sortedKeys_rereadMembers Json.sortedKeys_nil _, fun m hm => ?_, ?_,
    ⟨r.type, h.type, ?_, fun v => ?_⟩, ?_, fun text htext => ?_⟩
  · rw [hmem, mem_members_iff] at hm
    rcases hm with rfl | rfl | ⟨item, -, rfl⟩ | ⟨v, -, rfl⟩ <;> simp
  · rw [hmem, mem_members_iff, hp]
    exact Or.inr (Or.inl rfl)
  · rw [hmem, mem_members_iff]
    exact Or.inl rfl
  · rw [hmem, mem_members_iff]
    simp [Resolved.reread]
  · rw [((readMembers_perm r).map Prod.fst).mem_iff, ← h.declared]
    obtain ⟨p, type, default⟩ := r
    cases type <;> cases default <;> simp [Resolved.members, Resolved.items, Resolved.reread]
  · obtain ⟨v, hv⟩ : ∃ v, r.default = some v := by
      rw [← Option.isSome_iff_exists, h.declared, htext]
      rfl
    refine ⟨v, v.reread, h.defaultValue?.trans hv, ?_, ?_⟩
    · rw [hmem, mem_members_iff]
      exact Or.inr (Or.inr (Or.inr ⟨v.reread, by simp [Resolved.reread, hv], rfl⟩))
    · exact (h.canonical v hv).reread_eq

/-! ## The whole schema -/

section
variable {t : Tool} {parameters : List Resolved}

theorem schema_eq_ok_iff {text : String} :
    t.schema = .ok text ↔
      ∃ parameters, t.resolve = .ok parameters ∧ (schemaValue t parameters).print = text := by
  rw [schema]
  cases t.resolve <;> simp

theorem depth_property_le_iff {r : Resolved} {n : Nat} (hn : 1 ≤ n) :
    r.property.depth ≤ n + 1 ↔ ∀ v ∈ r.default, v.depth ≤ n := by
  rw [Resolved.property_eq, Json.depth_object_le_iff]
  constructor
  · intro h v hv
    exact h ("default", v) (mem_members_iff.2 (Or.inr (Or.inr (Or.inr ⟨v, hv, rfl⟩))))
  · intro h m hm
    rcases mem_members_iff.1 hm with rfl | rfl | ⟨item, -, rfl⟩ | ⟨v, hv, rfl⟩
    · simp [Json.depth]
    · simp [Json.depth]
    · simpa [Json.depth, Json.depthMembers] using hn
    · exact h v hv

/-- The schema nests three levels deeper than the deepest default. -/
theorem depth_schemaValue_le_iff {n : Nat} (hn : 1 ≤ n) :
    (schemaValue t parameters).depth ≤ n + 3 ↔
      ∀ r ∈ parameters, ∀ v ∈ r.default, v.depth ≤ n := by
  have hrequired : (Json.ofStrings t.requiredNames).depth ≤ n + 2 := by
    rw [Json.ofStrings, Json.depth_array_le_iff]
    intro v hv
    obtain ⟨name, -, rfl⟩ := List.mem_map.1 hv
    simp [Json.depth]
  have hproperties : (Json.object (parameters.map fun r => (r.parameter.name, r.property))).depth ≤
      n + 2 ↔ ∀ r ∈ parameters, ∀ v ∈ r.default, v.depth ≤ n := by
    rw [Json.depth_object_le_iff, List.forall_mem_map]
    exact forall₂_congr fun r _ => depth_property_le_iff hn
  rw [schemaValue, Json.depth_object_le_iff, ← hproperties]
  simp only [List.mem_cons, List.not_mem_nil, or_false, forall_eq_or_imp, forall_eq, hrequired]
  simp [Json.depth]

theorem shallow_iff (h : t.resolve = .ok parameters) :
    t.Shallow ↔ (schemaValue t parameters).depth ≤ Json.nestingLimit := by
  have hlimit : Json.nestingLimit = 124 + 3 := rfl
  rw [hlimit, depth_schemaValue_le_iff (by omega), Shallow,
    forall_default_iff (resolve_eq_ok h).2.2 fun v => v.depth + 3 ≤ Json.nestingLimit]
  simp only [hlimit, Nat.add_le_add_iff_right]

theorem saidBy_reread (h : t.resolve = .ok parameters) :
    t.SaidBy (schemaValue t parameters).reread := by
  obtain ⟨-, hnames, hall⟩ := resolve_eq_ok h
  have hkeys : (parameters.map fun r => (r.parameter.name, r.property)).map Prod.fst =
      t.parameters.map (·.name) := by
    rw [← map_parameter hall, List.map_map, List.map_map]
    rfl
  have hperm : (Json.rereadMembers [] (parameters.map fun r => (r.parameter.name, r.property))).Perm
      ((parameters.map fun r => (r.parameter.name, r.property)).map fun m => (m.1, m.2.reread)) :=
    Json.rereadMembers_perm (hkeys ▸ hnames)
  have hproperties : (schemaValue t parameters).reread.field "properties" =
      (Json.object (parameters.map fun r => (r.parameter.name, r.property))).reread :=
    field_schema (by simp)
  refine ⟨field_dialect, field_schema (v := .string t.name) (by simp),
    field_schema (v := .string "object") (by simp), field_required, field_closed,
    _, hproperties, Json.sortedKeys_rereadMembers Json.sortedKeys_nil _,
    fun name => ?_, fun p hp => ?_⟩
  · rw [(hperm.map Prod.fst).mem_iff, List.map_map, ← hkeys]
    rfl
  · obtain ⟨r, hr, hres⟩ := exists_resolved hall hp
    refine ⟨r.readMembers, ?_, describedBy_readMembers hres⟩
    rw [hperm.mem_iff, List.mem_map]
    exact ⟨(r.parameter.name, r.property), List.mem_map.2 ⟨r, hr, rfl⟩, by rw [hres.parameter]; rfl⟩

theorem parse_print_schema (h : t.resolve = .ok parameters) (hs : t.Shallow) :
    Json.parse (schemaValue t parameters).print = .ok (schemaValue t parameters).reread := by
  have hv := valid_schemaValue t (canonical_of_resolves (resolve_eq_ok h).2.2)
  rw [Json.parse, Json.print, String.toList_ofList, Json.readText_chars hv ((shallow_iff h).1 hs)]

theorem parse_print_schema_of_deep (h : t.resolve = .ok parameters) (hs : ¬ t.Shallow) :
    Json.parse (schemaValue t parameters).print = .error .tooDeep := by
  have hv := valid_schemaValue t (canonical_of_resolves (resolve_eq_ok h).2.2)
  rw [shallow_iff h, not_le] at hs
  rw [Json.parse, Json.print, String.toList_ofList, Json.readText_tooDeep hv hs]

end

/-- A schema says what its tool says if every default leaves room for the schema around it.
Otherwise the schema is refused by the reader that read the defaults. -/
theorem parse_schema (t : Tool) (text : String) (h : t.schema = .ok text) :
    (t.Shallow → ∃ v, Json.parse text = .ok v ∧ t.SaidBy v) ∧
      (¬ t.Shallow → Json.parse text = .error .tooDeep) := by
  obtain ⟨parameters, hr, rfl⟩ := schema_eq_ok_iff.1 h
  exact ⟨fun hs => ⟨_, parse_print_schema hr hs, saidBy_reread hr⟩, parse_print_schema_of_deep hr⟩

/-- Read members are sorted, whatever the order of the parameters. -/
def unsortedTool : Tool :=
  { name := "a"
    parameters :=
      [{ name := "q", type := "integer", required := true, default := some " 7 " },
        { name := "p", type := "array", items := some "number" }] }

theorem parse_schema_unsortedTool :
    ∃ text v, unsortedTool.schema = .ok text ∧ Json.parse text = .ok v ∧ unsortedTool.SaidBy v := by
  have hruns : unsortedTool.schema.isOk = true := by decide +kernel
  obtain ⟨text, htext⟩ := Except.exists_eq_ok_of_isOk hruns
  obtain ⟨v, hv, hsaid⟩ := (parse_schema unsortedTool text htext).1 (by decide +kernel)
  exact ⟨text, v, htext, hv, hsaid⟩

/-! ## Deep defaults -/

/-- Objects inside each other, this many, around a number. -/
def nested : Nat → Json
  | 0 => .number (.int 1)
  | n + 1 => .object [("a", nested n)]

theorem depth_nested (n : Nat) : (nested n).depth = n := by
  induction n with
  | zero => simp [nested, Json.depth]
  | succ n ih => simp [nested, Json.depth, Json.depthMembers, ih]

theorem canonical_nested (n : Nat) : (nested n).Canonical := by
  induction n with
  | zero => exact .number (show Json.minInt ≤ 1 ∧ 1 ≤ Json.maxInt by decide)
  | succ n ih => exact .object (List.pairwise_singleton _ _) (by simpa using ih)

theorem whole_nested (n : Nat) : (nested n).Whole := by
  induction n with
  | zero => simp [nested, Json.Whole, Json.numbers]
  | succ n ih => simpa [nested, Json.Whole, Json.numbers, Json.numbersMembers] using ih

theorem not_blank_nested (n : Nat) : ∀ c ∈ chars (nested n), Text.isBlank c = false := by
  induction n with
  | zero =>
    have hone : chars (nested 0) = ['1'] := rfl
    simp [hone, Text.isBlank]
  | succ n ih =>
    have hchars : chars (nested (n + 1)) =
        ['\x7b', '"', 'a', '"', ':'] ++ (chars (nested n) ++ ['\x7d']) := by
      simp [nested, chars, Json.membersText, Json.quoted, Json.escape]
    rw [hchars, List.forall_mem_append, List.forall_mem_append]
    refine ⟨?_, ih, ?_⟩ <;> simp [Text.isBlank]

theorem readText_nested {n : Nat} (h : n ≤ Json.nestingLimit) :
    readText (Text.trim (nested n).print.toList) = .ok (nested n) := by
  have hread := Json.readText_chars (canonical_nested n).valid
    ((depth_nested n).trans_le h)
  rw [Json.print, String.toList_ofList, Text.trim_of_no_blank (not_blank_nested n), hread,
    (canonical_nested n).reread_eq (whole_nested n)]

theorem defaultValue?_nested {n : Nat} (hpos : 1 ≤ n) (h : n ≤ Json.nestingLimit) :
    ParamType.object.defaultValue? (nested n).print = some (nested n) := by
  obtain ⟨n, rfl⟩ : ∃ k, n = k + 1 := ⟨n - 1, by omega⟩
  have haccepts : ParamType.object.accepts (nested (n + 1)) = true := rfl
  rw [ParamType.defaultValue?, readText_nested h]
  simp [haccepts]

def nestedTool (n : Nat) : Tool :=
  { name := "a", parameters := [{ name := "p", type := "object", default := some (nested n).print }] }

theorem resolve_nestedTool {n : Nat} (hpos : 1 ≤ n) (h : n ≤ Json.nestingLimit) :
    ∃ parameters, (nestedTool n).resolve = .ok parameters := by
  have htype : ParamType.parse "object" none = .ok .object := by decide
  have hname : Text.isBlankText "a".toList = false := by decide
  have hblank : "a".toList.any Text.isBlank = false := by decide
  have hparameter : Text.isBlankText "p".toList = false := by decide
  simp only [resolve, nestedTool, hname, hblank, resolveAfter, hparameter, resolveParameter, htype,
    defaultValue?_nested hpos h]
  exact ⟨_, rfl⟩

section
variable {n : Nat} (hpos : 1 ≤ n) (h : n ≤ Json.nestingLimit)
include hpos h

theorem defaultValue?_nestedTool :
    ∀ p ∈ (nestedTool n).parameters, p.defaultValue? = some (nested n) := by
  intro p hp
  obtain rfl := List.mem_singleton.1 hp
  have htype : ParamType.parse "object" none = .ok .object := by decide
  simp only [Parameter.defaultValue?, htype, Option.bind_some, defaultValue?_nested hpos h]

theorem shallow_nestedTool_iff : (nestedTool n).Shallow ↔ n + 3 ≤ Json.nestingLimit := by
  have hone : ∀ p ∈ (nestedTool n).parameters, (∀ v ∈ p.defaultValue?, v.depth + 3 ≤
      Json.nestingLimit) ↔ n + 3 ≤ Json.nestingLimit := by
    intro p hp
    rw [defaultValue?_nestedTool hpos h p hp]
    simp [depth_nested]
  rw [Shallow, forall₂_congr hone]
  simp [nestedTool]

theorem whole_nestedTool : ∀ p ∈ (nestedTool n).parameters, ∀ v ∈ p.defaultValue?, v.Whole := by
  intro p hp v hv
  rw [defaultValue?_nestedTool hpos h p hp] at hv
  obtain rfl := Option.some.inj hv
  exact whole_nested n

end

/-- A default that is read by itself need not be readable inside the schema. -/
theorem not_forall_parse_schema :
    ¬ ∀ (t : Tool) (text : String), t.schema = .ok text →
      (∀ p ∈ t.parameters, ∀ v ∈ p.defaultValue?, v.Whole) →
        ∃ v, Json.parse text = .ok v := by
  intro hall
  have hpos : 1 ≤ 125 := by decide
  have hlimit : 125 ≤ Json.nestingLimit := by decide
  obtain ⟨parameters, hresolve⟩ := resolve_nestedTool hpos hlimit
  have hdeep : ¬ (nestedTool 125).Shallow := by
    rw [shallow_nestedTool_iff hpos hlimit]
    decide
  obtain ⟨v, hv⟩ :=
    hall _ _ (schema_eq_ok_iff.2 ⟨parameters, hresolve, rfl⟩) (whole_nestedTool hpos hlimit)
  rw [parse_print_schema_of_deep hresolve hdeep] at hv
  cases hv

end Tool
end AgentPrompt
