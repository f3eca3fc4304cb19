import AgentPrompt.Proofs.Except
import AgentPrompt.Proofs.Tool.Schema
import AgentPrompt.Tool.Block

namespace AgentPrompt

namespace ParamType

/-- The ways to write a type, with the type of an array's items beside it. -/
inductive Denotes : String → Option String → ParamType → Prop
  | primitive (p : Primitive) : Denotes p.name none (.primitive p)
  | object : Denotes "object" none .object
  | strings : Denotes "array" none (.array .string)
  | array (item : Primitive) : Denotes "array" (some item.name) (.array item)

theorem parse?_eq_some_iff {s : String} {p : Primitive} :
    Primitive.parse? s = some p ↔ s = p.name := by
  constructor
  · intro h
    have hname := List.find?_some h
    exact (beq_iff_eq.1 hname).symm
  · rintro rfl
    exact Primitive.parse?_name p

theorem ofName?_name (p : Primitive) : ofName? p.name = some (.primitive p) := by
  cases p <;> decide

theorem ofName?_eq_some_iff {type : String} {t : ParamType} :
    ofName? type = some t ↔ Denotes type none t := by
  constructor
  · intro h
    unfold ofName? at h
    split at h
    · rename_i ho
      obtain rfl := Option.some.inj h
      exact ho ▸ .object
    · split at h
      · rename_i ha
        obtain rfl := Option.some.inj h
        exact ha ▸ .strings
      · obtain ⟨p, hp, rfl⟩ := Option.map_eq_some_iff.1 h
        exact parse?_eq_some_iff.1 hp ▸ .primitive p
  · intro h
    cases h with
    | primitive p => exact ofName?_name p
    | object => decide
    | strings => decide

/-- A type is read exactly from the ways to write it. -/
theorem parse_eq_ok_iff {type : String} {items : Option String} {t : ParamType} :
    parse type items = .ok t ↔ Denotes type items t := by
  cases items with
  | none =>
    rw [← ofName?_eq_some_iff]
    cases htype : ofName? type <;> simp [parse, htype]
  | some item =>
    constructor
    · intro h
      unfold parse at h
      split at h
      · cases h
      · rename_i heq
        cases heq
      · rename_i p i htype heq
        obtain rfl := Option.some.inj heq
        have harray : type = "array" := by
          cases ofName?_eq_some_iff.1 htype with
          | strings => rfl
        split at h
        · rename_i q hq
          obtain rfl := Except.ok.inj h
          rw [harray, parse?_eq_some_iff.1 hq]
          exact .array q
        · cases h
      · cases h
    · intro h
      cases h with
      | array p =>
        have harray : ofName? "array" = some (.array .string) := by decide
        simp [parse, harray, Primitive.parse?_name]

end ParamType

namespace Tool
open ParamType (Denotes)

/-- The parameter has a type of the model, and its default, if it has one, is of that type. -/
def Typed (p : Parameter) : Prop :=
  ∃ type, Denotes p.type p.items type ∧ ∀ text ∈ p.default, ∃ v, type.defaultValue? text = some v

structure UsableParameters (ps : List Parameter) : Prop where
  named : ∀ p ∈ ps, Text.isBlankText p.name.toList = false
  distinct : (ps.map (·.name)).Nodup
  typed : ∀ p ∈ ps, Typed p

structure OneWord (name : String) : Prop where
  named : name ≠ ""
  unbroken : ∀ c ∈ name.toList, Text.isBlank c = false

structure Usable (t : Tool) : Prop where
  name : OneWord t.name
  parameters : UsableParameters t.parameters

/-- `FaultOf seen p fault` says that `fault` is the first of a parameter after parameters with the
names `seen`. -/
inductive FaultOf (seen : List String) (p : Parameter) : Fault → Prop
  | unnamed (blank : Text.isBlankText p.name.toList = true) : FaultOf seen p .emptyParameterName
  | repeated (named : Text.isBlankText p.name.toList = false) (old : p.name ∈ seen) :
      FaultOf seen p (.repeatedParameter p.name)
  | untyped {fault : ParamType.Fault} (named : Text.isBlankText p.name.toList = false)
      (new : p.name ∉ seen) (unread : ParamType.parse p.type p.items = .error fault) :
      FaultOf seen p (.badType p.name fault)
  | unfit {type : ParamType} {text : String} (named : Text.isBlankText p.name.toList = false)
      (new : p.name ∉ seen) (read : Denotes p.type p.items type) (declared : p.default = some text)
      (refused : type.defaultValue? text = none) : FaultOf seen p (.badDefault p.name type text)

/-- What a tool is refused for. A parameter's fault counts where its name is a word and all parameters
before it are usable. -/
inductive FirstFault (t : Tool) : Fault → Prop
  | unnamed (blank : Text.isBlankText t.name.toList = true) : FirstFault t .emptyName
  | broken (named : Text.isBlankText t.name.toList = false)
      (blank : ∃ c ∈ t.name.toList, Text.isBlank c = true) : FirstFault t .blankInName
  | parameter {before after : List Parameter} {p : Parameter} {fault : Fault}
      (name : OneWord t.name) (split : t.parameters = before ++ p :: after)
      (usable : UsableParameters before) (first : FaultOf (before.map (·.name)) p fault) :
      FirstFault t fault

theorem FaultOf.congr {seen seen' : List String} (h : ∀ n, n ∈ seen ↔ n ∈ seen') {p : Parameter}
    {fault : Fault} (hf : FaultOf seen p fault) : FaultOf seen' p fault := by
  cases hf with
  | unnamed blank => exact .unnamed blank
  | repeated named old => exact .repeated named ((h _).1 old)
  | untyped named new unread => exact .untyped named (fun hm => new ((h _).2 hm)) unread
  | unfit named new read declared refused =>
    exact .unfit named (fun hm => new ((h _).2 hm)) read declared refused

/-! ## One parameter -/

/-- A parameter either has a first fault or a new name, a type and a fitting default. -/
theorem fault_or_fine (seen : List String) (p : Parameter) :
    (∃ fault, FaultOf seen p fault) ∨
      Text.isBlankText p.name.toList = false ∧ p.name ∉ seen ∧ Typed p := by
  cases named : Text.isBlankText p.name.toList with
  | true => exact Or.inl ⟨_, .unnamed named⟩
  | false =>
    by_cases old : p.name ∈ seen
    · exact Or.inl ⟨_, .repeated named old⟩
    · cases htype : ParamType.parse p.type p.items with
      | error fault => exact Or.inl ⟨_, .untyped named old htype⟩
      | ok type =>
        have read := ParamType.parse_eq_ok_iff.1 htype
        by_cases hfit : ∀ text ∈ p.default, ∃ v, type.defaultValue? text = some v
        · exact Or.inr ⟨rfl, old, type, read, hfit⟩
        · push Not at hfit
          obtain ⟨text, declared, hrefused⟩ := hfit
          exact Or.inl ⟨_, .unfit named old read declared (Option.eq_none_iff_forall_ne_some.2 hrefused)⟩

theorem exists_resolveParameter {p : Parameter} (h : Typed p) :
    ∃ r, resolveParameter p = .ok r := by
  obtain ⟨type, htype, hdefault⟩ := h
  rw [resolveParameter, ParamType.parse_eq_ok_iff.2 htype]
  cases hp : p.default with
  | none => exact ⟨_, rfl⟩
  | some text =>
    obtain ⟨v, hv⟩ := hdefault text hp
    simp [hv]

/-- A parameter with a fault is where a list of parameters is given up. -/
theorem FaultOf.resolveAfter_cons {seen : List String} {p : Parameter} {fault : Fault}
    (h : FaultOf seen p fault) (ps : List Parameter) :
    resolveAfter seen (p :: ps) = .error fault := by
  cases h with
  | unnamed blank => simp [resolveAfter, blank]
  | repeated named old => simp [resolveAfter, named, old]
  | untyped named new unread =>
    simp [resolveAfter, named, new, resolveParameter, unread, bind, Except.bind]
  | unfit named new read declared refused =>
    have hparse := ParamType.parse_eq_ok_iff.2 read
    simp [resolveAfter, named, new, resolveParameter, hparse, declared, refused, bind, Except.bind]

/-- A parameter without a fault is passed. -/
theorem resolveAfter_cons {seen : List String} {p : Parameter}
    (named : Text.isBlankText p.name.toList = false) (new : p.name ∉ seen) (typed : Typed p) :
    ∃ r, ∀ ps, resolveAfter seen (p :: ps) =
      (resolveAfter (p.name :: seen) ps).map (r :: ·) := by
  obtain ⟨r, hr⟩ := exists_resolveParameter typed
  refine ⟨r, fun ps => ?_⟩
  simp only [resolveAfter, named, new, hr, bind, Except.bind, Bool.false_eq_true, if_false]
  cases resolveAfter (p.name :: seen) ps <;> rfl

/-! ## All parameters -/

theorem usableParameters_nil : UsableParameters [] :=
  ⟨by simp, by simp, by simp⟩

theorem usableParameters_cons_iff (p : Parameter) (ps : List Parameter) :
    UsableParameters (p :: ps) ↔
      (Text.isBlankText p.name.toList = false ∧ Typed p) ∧ UsableParameters ps ∧
        ∀ q ∈ ps, q.name ≠ p.name := by
  constructor
  · intro ⟨hnamed, hdistinct, htyped⟩
    obtain ⟨hnew, hdistinct⟩ := List.nodup_cons.1 hdistinct
    obtain ⟨hp, hnamed⟩ := List.forall_mem_cons.1 hnamed
    obtain ⟨ht, htyped⟩ := List.forall_mem_cons.1 htyped
    refine ⟨⟨hp, ht⟩, ⟨hnamed, hdistinct, htyped⟩, fun q hq he => hnew ?_⟩
    exact List.mem_map.2 ⟨q, hq, he⟩
  · rintro ⟨⟨hp, ht⟩, ⟨hnamed, hdistinct, htyped⟩, hnew⟩
    refine ⟨List.forall_mem_cons.2 ⟨hp, hnamed⟩, List.nodup_cons.2 ⟨fun hm => ?_, hdistinct⟩,
      List.forall_mem_cons.2 ⟨ht, htyped⟩⟩
    obtain ⟨q, hq, he⟩ := List.mem_map.1 hm
    exact hnew q hq he

/-- Parameters that are usable after parameters with the names `seen`. -/
structure UsableAfter (seen : List String) (ps : List Parameter) : Prop where
  usable : UsableParameters ps
  new : ∀ p ∈ ps, p.name ∉ seen

theorem usableAfter_cons_iff (seen : List String) (p : Parameter) (ps : List Parameter) :
    UsableAfter seen (p :: ps) ↔
      (Text.isBlankText p.name.toList = false ∧ p.name ∉ seen ∧ Typed p) ∧
        UsableAfter (p.name :: seen) ps := by
  constructor
  · rintro ⟨husable, hnew⟩
    obtain ⟨⟨named, typed⟩, husable, hother⟩ := (usableParameters_cons_iff p ps).1 husable
    obtain ⟨new, hnew⟩ := List.forall_mem_cons.1 hnew
    refine ⟨⟨named, new, typed⟩, husable, fun q hq hm => ?_⟩
    rcases List.mem_cons.1 hm with he | hm
    · exact hother q hq he
    · exact hnew q hq hm
  · rintro ⟨⟨named, new, typed⟩, husable, hnew⟩
    refine ⟨(usableParameters_cons_iff p ps).2 ⟨⟨named, typed⟩, husable, fun q hq he => ?_⟩,
      List.forall_mem_cons.2 ⟨new, fun q hq hm => ?_⟩⟩
    · exact hnew q hq (he ▸ List.mem_cons_self)
    · exact hnew q hq (List.mem_cons_of_mem _ hm)

theorem exists_resolveAfter {seen : List String} {ps : List Parameter} (h : UsableAfter seen ps) :
    ∃ rs, resolveAfter seen ps = .ok rs := by
  induction ps generalizing seen with
  | nil => exact ⟨[], rfl⟩
  | cons p ps ih =>
    obtain ⟨⟨named, new, typed⟩, hmore⟩ := (usableAfter_cons_iff seen p ps).1 h
    obtain ⟨r, hr⟩ := resolveAfter_cons named new typed
    obtain ⟨rs, hrs⟩ := ih hmore
    exact ⟨r :: rs, by rw [hr, hrs]; rfl⟩

/-- The first fault after usable parameters is the one that is reported. -/
theorem resolveAfter_of_first {seen : List String} {before : List Parameter} {p : Parameter}
    {fault : Fault} (h : UsableAfter seen before)
    (hp : FaultOf (before.map (·.name) ++ seen) p fault) (after : List Parameter) :
    resolveAfter seen (before ++ p :: after) = .error fault := by
  induction before generalizing seen with
  | nil => exact hp.resolveAfter_cons after
  | cons q before ih =>
    obtain ⟨⟨named, new, typed⟩, hmore⟩ := (usableAfter_cons_iff seen q before).1 h
    obtain ⟨r, hr⟩ := resolveAfter_cons named new typed
    have hlater := ih hmore (hp.congr fun n => by simp [or_left_comm])
    rw [List.cons_append, hr, hlater]
    rfl

/-- Parameters that are not usable have a first fault. -/
theorem exists_first_fault {seen : List String} {ps : List Parameter} (h : ¬ UsableAfter seen ps) :
    ∃ before p after fault, ps = before ++ p :: after ∧ UsableAfter seen before ∧
      FaultOf (before.map (·.name) ++ seen) p fault := by
  -- Along the list the names seen grow, so the claim is one about all of them.
  induction ps generalizing seen with
  | nil => exact absurd ⟨usableParameters_nil, by simp⟩ h
  | cons p ps ih =>
    rcases fault_or_fine seen p with ⟨fault, hfault⟩ | hfine
    · exact ⟨[], p, ps, fault, rfl, ⟨usableParameters_nil, by simp⟩, hfault⟩
    · have hmore : ¬ UsableAfter (p.name :: seen) ps :=
        fun hmore => h ((usableAfter_cons_iff seen p ps).2 ⟨hfine, hmore⟩)
      obtain ⟨before, q, after, fault, rfl, husable, hq⟩ := ih hmore
      exact ⟨p :: before, q, after, fault, rfl, (usableAfter_cons_iff seen p before).2 ⟨hfine, husable⟩,
        hq.congr fun n => by simp [or_left_comm]⟩

theorem usableAfter_nil_iff (ps : List Parameter) : UsableAfter [] ps ↔ UsableParameters ps :=
  ⟨fun h => h.usable, fun h => ⟨h, by simp⟩⟩

/-! ## The whole tool -/

theorem OneWord.not_blank {name : String} (h : OneWord name) :
    Text.isBlankText name.toList = false := by
  obtain ⟨c, more, hc⟩ := List.exists_cons_of_ne_nil (String.toList_eq_nil_iff.not.2 h.named)
  have hfirst := h.unbroken c (by simp [hc])
  simp [Text.isBlankText, hc, hfirst]

theorem resolve_of_oneWord {t : Tool} (h : OneWord t.name) :
    t.resolve = resolveAfter [] t.parameters := by
  have hbroken : t.name.toList.any Text.isBlank = false := by simpa using h.unbroken
  simp [resolve, h.not_blank, hbroken]

theorem exists_resolve {t : Tool} (h : t.Usable) : ∃ parameters, t.resolve = .ok parameters := by
  rw [resolve_of_oneWord h.name]
  exact exists_resolveAfter ((usableAfter_nil_iff _).2 h.parameters)

theorem FirstFault.resolve {t : Tool} {fault : Fault} (h : t.FirstFault fault) :
    t.resolve = .error fault := by
  cases h with
  | unnamed blank => simp [Tool.resolve, blank]
  | broken named blank => simp [Tool.resolve, named, blank]
  | parameter name split usable first =>
    rw [resolve_of_oneWord name, split]
    exact resolveAfter_of_first ((usableAfter_nil_iff _).2 usable) (by simpa using first) _

theorem exists_firstFault {t : Tool} (h : ¬ t.Usable) : ∃ fault, t.FirstFault fault := by
  cases named : Text.isBlankText t.name.toList with
  | true => exact ⟨_, .unnamed named⟩
  | false =>
    by_cases blank : ∃ c ∈ t.name.toList, Text.isBlank c = true
    · exact ⟨_, .broken named blank⟩
    · have hname : OneWord t.name := by
        refine ⟨?_, by simpa using blank⟩
        rintro he
        simp [he, Text.isBlankText] at named
      have hparameters : ¬ UsableAfter [] t.parameters :=
        fun hp => h ⟨hname, (usableAfter_nil_iff _).1 hp⟩
      obtain ⟨before, p, after, fault, hsplit, husable, hfault⟩ := exists_first_fault hparameters
      exact ⟨fault, .parameter hname hsplit husable.usable (by simpa using hfault)⟩

theorem usable_of_resolve {t : Tool} {parameters : List Resolved}
    (h : t.resolve = .ok parameters) : t.Usable := by
  by_contra hnot
  obtain ⟨fault, hfault⟩ := exists_firstFault hnot
  rw [hfault.resolve] at h
  cases h

/-! ## Lists of blocks -/

theorem block_eq_error {tool : Tool} {e : Error} (h : tool.block = .error e) :
    ∃ reason, e = .invalidTool tool.name reason := by
  simp only [block] at h
  split at h
  · obtain rfl := Except.error.inj h
    exact ⟨_, rfl⟩
  · split at h
    · obtain rfl := Except.error.inj h
      exact ⟨_, rfl⟩
    · cases h

theorem forall₂_of_mapM_block {tools : List Tool} {blocks : List String}
    (h : tools.mapM block = .ok blocks) :
    List.Forall₂ (fun tool b => tool.block = .ok b) tools blocks := by
  induction tools generalizing blocks with
  | nil =>
    obtain rfl := Except.ok.inj h
    exact .nil
  | cons tool tools ih =>
    obtain ⟨b, more, hb, hmore, rfl⟩ := Except.mapM_cons_eq_ok_iff.1 h
    exact .cons hb (ih hmore)

theorem exists_blocks_of_blockList {tools : List Tool} {text : String}
    (h : blockList tools = .ok text) :
    ∃ blocks, List.Forall₂ (fun tool b => tool.block = .ok b) tools blocks ∧
      text = "\n\n".intercalate blocks := by
  obtain ⟨blocks, hblocks, hjoined⟩ := Except.bind_eq_ok_iff.1 h
  exact ⟨blocks, forall₂_of_mapM_block hblocks, (Except.ok.inj hjoined).symm⟩

/-- The first tool without a block is the one that spoils a list. -/
theorem first_error_of_blockList {tools : List Tool} {e : Error} (h : blockList tools = .error e) :
    ∃ front tool back, tools = front ++ tool :: back ∧ (∀ u ∈ front, ∃ b, u.block = .ok b) ∧
      tool.block = .error e := by
  rcases Except.bind_eq_error_iff.1 h with h | ⟨blocks, -, hnever⟩
  · exact Except.exists_first_error h
  · cases hnever

/-! ## Usable tools and their faults -/

/-- A tool has a schema exactly if it is usable. Any other tool has one first fault, and its schema,
its block and a list of its block are all refused for that fault. The block of a usable tool can only
be refused for legacy markup. -/
theorem exists_schema_iff_usable (t : Tool) :
    ((∃ text, t.schema = .ok text) ↔ t.Usable) ∧
      (¬ t.Usable → ∃! fault, t.FirstFault fault) ∧
      (∀ fault, t.FirstFault fault →
        t.schema = .error (.invalidTool t.name fault.message) ∧
          t.block = .error (.invalidTool t.name fault.message) ∧
          blockList [t] = .error (.invalidTool t.name fault.message)) ∧
      (t.Usable → (∃ text, t.block = .ok text) ∨
        ∃ m ∈ Markup.legacyMarkers,
          t.block = .error (.invalidTool t.name (Fault.legacyMarkup m).message)) := by
  refine ⟨⟨?_, fun husable => ?_⟩, fun hnot => ?_, fun fault hfault => ?_, fun husable => ?_⟩
  · rintro ⟨text, htext⟩
    rw [schema] at htext
    split at htext
    · rename_i parameters hr
      exact usable_of_resolve hr
    · cases htext
  · obtain ⟨parameters, hr⟩ := exists_resolve husable
    exact ⟨_, by rw [schema, hr]⟩
  · obtain ⟨fault, hfault⟩ := exists_firstFault hnot
    refine ⟨fault, hfault, fun other hother => ?_⟩
    exact Except.error.inj (hother.resolve.symm.trans hfault.resolve)
  · have hblock : t.block = .error (t.invalid fault) := by rw [block, hfault.resolve]
    refine ⟨by rw [schema, hfault.resolve]; rfl, hblock, ?_⟩
    simp [blockList, hblock, invalid, bind, Except.bind]
  · obtain ⟨parameters, hr⟩ := exists_resolve husable
    simp only [block, hr]
    cases hm : Markup.findLegacy? (t.blockText parameters) with
    | none => exact Or.inl ⟨_, rfl⟩
    | some m => exact Or.inr ⟨m, List.mem_of_find?_eq_some hm, rfl⟩

/-- A tool with a repeated name, an unknown type and a default that does not fit, in this order. -/
def manifoldTool : Tool where
  name := "a"
  parameters := [{ name := "p", type := "string" }, { name := "p", type := "text" },
    { name := "q", type := "integer", default := some "1.5" }]

theorem exists_schema_iff_usable_manifold :
    ¬ manifoldTool.Usable ∧
      manifoldTool.FirstFault (.repeatedParameter "p") ∧
      blockList [manifoldTool] =
        .error (.invalidTool "a" "parameter 'p' is declared more than once") := by
  have hfirst : manifoldTool.FirstFault (.repeatedParameter "p") := by
    have hsplit : manifoldTool.parameters = [{ name := "p", type := "string" }] ++
        { name := "p", type := "text" } :: manifoldTool.parameters.drop 2 := rfl
    have hname : OneWord manifoldTool.name := ⟨by decide, by simp [manifoldTool, Text.isBlank]⟩
    refine .parameter hname hsplit ⟨by decide, by decide, ?_⟩
      (.repeated (by decide) (by decide))
    simp only [List.forall_mem_singleton]
    exact ⟨_, .primitive .string, by simp⟩
  obtain ⟨hiff, -, hall, -⟩ := exists_schema_iff_usable manifoldTool
  obtain ⟨hschema, -, hlist⟩ := hall _ hfirst
  refine ⟨fun husable => ?_, hfirst, hlist⟩
  obtain ⟨text, htext⟩ := hiff.2 husable
  rw [hschema] at htext
  cases htext

end Tool
end AgentPrompt
