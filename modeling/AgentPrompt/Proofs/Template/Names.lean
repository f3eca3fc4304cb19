import AgentPrompt.Proofs.Template.Layout
import Mathlib.Data.List.Nodup

namespace AgentPrompt.Template

/-- A placeholder of this name stands in the template at a byte offset. -/
def PlaceholderAt (template name : String) (position : Nat) : Prop :=
  ∃ rest, OpensAt template.toList position rest ∧ Closes name.toList rest

/-! ## Names without repeats -/

/-- Adds names at the end, except those that are there. -/
def addNew (seen : List String) (names : List String) : List String :=
  names.foldl (fun seen n => if n ∈ seen then seen else seen ++ [n]) seen

theorem names_eq (ps : List Piece) : names ps = addNew [] (ps.filterMap Piece.name?) :=
  rfl

theorem addNew_cons (seen : List String) (n : String) (names : List String) :
    addNew seen (n :: names) = addNew (if n ∈ seen then seen else seen ++ [n]) names :=
  rfl

theorem mem_addNew {seen names : List String} {n : String} :
    n ∈ addNew seen names ↔ n ∈ seen ∨ n ∈ names := by
  induction names generalizing seen with
  | nil => simp [addNew]
  | cons m names ih =>
    rw [addNew_cons, ih, List.mem_cons, ← or_assoc]
    split
    · rename_i hm
      constructor
      · exact fun h => h.imp_left Or.inl
      · rintro ((h | rfl) | h)
        · exact Or.inl h
        · exact Or.inl hm
        · exact Or.inr h
    · simp

theorem nodup_addNew {seen : List String} (h : seen.Nodup) (names : List String) :
    (addNew seen names).Nodup := by
  induction names generalizing seen with
  | nil => exact h
  | cons m names ih =>
    rw [addNew_cons]
    apply ih
    split
    · exact h
    · rename_i hm
      exact List.Nodup.append h (List.nodup_singleton m) (by simpa using hm)

/-- The first with a property stays the first when repeats are left out. -/
theorem find?_addNew (p : String → Bool) (seen names : List String) :
    (addNew seen names).find? p = (seen ++ names).find? p := by
  induction names generalizing seen with
  | nil => simp [addNew]
  | cons m names ih =>
    rw [addNew_cons, ih]
    split
    · rename_i hm
      rw [List.find?_append, List.find?_append, List.find?_cons]
      cases hp : p m with
      | false => rfl
      | true =>
        obtain ⟨x, hx⟩ : ∃ x, seen.find? p = some x :=
          Option.isSome_iff_exists.1 (List.find?_isSome.2 ⟨m, hm, hp⟩)
        simp [hx]
    · simp

/-! ## The slots of a template -/

theorem map_name_slots (ps : List Piece) :
    (Layout.ofPieces ps).slots.map Slot.name = ps.filterMap Piece.name? := by
  induction ps with
  | nil => rfl
  | cons piece ps ih =>
    cases piece with
    | literal text => exact ih
    | placeholder name position source => simpa [Layout.ofPieces, Piece.name?] using ih

theorem exists_slot_iff (ps : List Piece) (name : String) (position : Nat) :
    (∃ s ∈ (Layout.ofPieces ps).slots, s.name = name ∧ s.position = position) ↔
      ∃ source, .placeholder name.toList position source ∈ ps := by
  induction ps with
  | nil => simp [Layout.ofPieces]
  | cons piece ps ih =>
    cases piece with
    | literal text => simpa [Layout.ofPieces] using ih
    | placeholder n p source =>
      constructor
      · rintro ⟨s, hs, rfl, rfl⟩
        rcases List.mem_cons.1 hs with rfl | hs
        · exact ⟨source, by simp⟩
        · obtain ⟨other, ho⟩ := ih.1 ⟨s, hs, rfl, rfl⟩
          exact ⟨other, List.mem_cons_of_mem _ ho⟩
      · rintro ⟨other, ho⟩
        rcases List.mem_cons.1 ho with ho | ho
        · obtain ⟨rfl, rfl, rfl⟩ := Piece.placeholder.inj ho
          exact ⟨_, List.mem_cons_self, by simp, rfl⟩
        · obtain ⟨s, hs, hsame⟩ := ih.2 ⟨other, ho⟩
          exact ⟨s, List.mem_cons_of_mem _ hs, hsame⟩

section
variable {template : String} {ps : List Piece} (h : pieces template.toList = .ok ps)
include h

/-- The slots of a template are its placeholders. -/
theorem exists_slot_iff_placeholderAt (name : String) (position : Nat) :
    (∃ s ∈ (Layout.ofPieces ps).slots, s.name = name ∧ s.position = position) ↔
      PlaceholderAt template name position := by
  rw [exists_slot_iff, placeholder_mem_cut_iff (Unclosed.none _) h, PlaceholderAt]
  simp only [opensAt_iff_mem]
  rfl

theorem mem_names_iff (name : String) :
    name ∈ names ps ↔ ∃ p, PlaceholderAt template name p := by
  simp only [names_eq, mem_addNew, List.not_mem_nil, false_or, ← map_name_slots, List.mem_map,
    ← exists_slot_iff_placeholderAt h]
  constructor
  · rintro ⟨s, hs, hn⟩
    exact ⟨s.position, s, hs, hn, rfl⟩
  · rintro ⟨p, s, hs, hn, -⟩
    exact ⟨s, hs, hn⟩

theorem isName_of_mem_names {name : String} (hn : name ∈ names ps) : isName name.toList = true := by
  obtain ⟨p, rest, -, left, right, more, -, hname, -⟩ := (mem_names_iff h name).1 hn
  exact hname

theorem slots_increasing :
    ((Layout.ofPieces ps).slots.map Slot.position).Pairwise (· < ·) :=
  (Layout.isOf_ofPieces (pieces_tiles h)).increasing

/-- A slot before which no slot has its name stands at the first place of the name. -/
theorem first_place_of_slot {before after : List Slot} {s : Slot}
    (hs : (Layout.ofPieces ps).slots = before ++ s :: after) (hb : ∀ r ∈ before, r.name ≠ s.name) :
    PlaceholderAt template s.name s.position ∧
      ∀ q, PlaceholderAt template s.name q → s.position ≤ q := by
  have hi := slots_increasing h
  simp only [← exists_slot_iff_placeholderAt h]
  rw [hs] at hi ⊢
  refine ⟨⟨s, by simp, rfl, rfl⟩, ?_⟩
  rintro q ⟨r, hr, hn, rfl⟩
  rw [List.map_append, List.map_cons] at hi
  rcases List.mem_append.1 hr with hr | hr
  · exact absurd hn (hb r hr)
  · rcases List.mem_cons.1 hr with rfl | hr
    · exact Nat.le_refl _
    · have hlater := (List.pairwise_cons.1 (List.pairwise_append.1 hi).2.1).1
      exact Nat.le_of_lt (hlater r.position (List.mem_map_of_mem hr))

end

/-! ## Missing names -/

def firstMissing? (b : Bindings) (names : List String) : Option String :=
  names.find? fun n => !b.contains n

theorem firstMissing?_names (b : Bindings) (ps : List Piece) :
    firstMissing? b (names ps) =
      ((Layout.ofPieces ps).slots.find? fun s => !b.contains s.name).map Slot.name := by
  rw [firstMissing?, names_eq, find?_addNew, List.nil_append, ← map_name_slots, List.find?_map]
  rfl

theorem compile_eq_map_fill {template : String} {ps : List Piece}
    (h : pieces template.toList = .ok ps) (b : Bindings) :
    compile template b = (fill b ps).map String.ofList := by
  rw [compile, h]
  rfl

section
variable {template : String} {ps : List Piece} {b : Bindings}

/-- A template of whose names none is missing is compiled to its layout, filled. -/
theorem compile_of_firstMissing?_eq_none (h : pieces template.toList = .ok ps)
    (hm : firstMissing? b (names ps) = none) :
    compile template b = .ok (String.ofList ((Layout.ofPieces ps).filled b)) := by
  rw [firstMissing?_names, Option.map_eq_none_iff, List.find?_eq_none] at hm
  have hall : ∀ s ∈ (Layout.ofPieces ps).slots, b.contains s.name := by simpa using hm
  rw [compile_eq_map_fill h, fill_ofPieces b ps hall]
  rfl

/-- The first of a template's names that is missing is reported at its first place. -/
theorem compile_of_firstMissing?_eq_some (h : pieces template.toList = .ok ps) {name : String}
    (hm : firstMissing? b (names ps) = some name) :
    ∃ p, compile template b = .error (.unresolvedVariable name p) ∧
      PlaceholderAt template name p ∧ ∀ q, PlaceholderAt template name q → p ≤ q := by
  rw [firstMissing?_names, Option.map_eq_some_iff] at hm
  obtain ⟨s, hs, rfl⟩ := hm
  obtain ⟨hmissing, before, after, hslots, hbefore⟩ := List.find?_eq_some_iff_append.1 hs
  have hmissing : b.contains s.name = false := by simpa using hmissing
  have hbefore : ∀ r ∈ before, b.contains r.name = true := by simpa using hbefore
  have hnew : ∀ r ∈ before, r.name ≠ s.name := by
    intro r hr he
    have hr := hbefore r hr
    rw [he, hmissing] at hr
    cases hr
  refine ⟨s.position, ?_, first_place_of_slot h hslots hnew⟩
  rw [compile_eq_map_fill h, fill_ofPieces_missing b ps hslots hbefore hmissing]
  rfl

/-- A template that scans is compiled, or its first missing name is reported. -/
theorem compile_cases (h : pieces template.toList = .ok ps) (b : Bindings) :
    (firstMissing? b (names ps) = none ∧ ∃ text, compile template b = .ok text) ∨
      ∃ name p, firstMissing? b (names ps) = some name ∧
        compile template b = .error (.unresolvedVariable name p) ∧
        PlaceholderAt template name p ∧ ∀ q, PlaceholderAt template name q → p ≤ q := by
  cases hm : firstMissing? b (names ps) with
  | none => exact Or.inl ⟨rfl, _, compile_of_firstMissing?_eq_none h hm⟩
  | some name =>
    obtain ⟨p, hp⟩ := compile_of_firstMissing?_eq_some h hm
    exact Or.inr ⟨name, p, rfl, hp⟩

/-- The name that a compilation reports is the first missing one, and the place is its first. -/
theorem compile_eq_unresolved_iff (h : pieces template.toList = .ok ps) (name : String) (p : Nat) :
    compile template b = .error (.unresolvedVariable name p) ↔
      firstMissing? b (names ps) = some name ∧ PlaceholderAt template name p ∧
        ∀ q, PlaceholderAt template name q → p ≤ q := by
  rcases compile_cases h b with ⟨hm, text, hc⟩ | ⟨first, place, hm, hc, hat, hleast⟩
  · simp [hc, hm]
  · rw [hc, hm]
    constructor
    · intro he
      obtain ⟨rfl, rfl⟩ := Error.unresolvedVariable.inj (Except.error.inj he)
      exact ⟨rfl, hat, hleast⟩
    · rintro ⟨hfirst, hp, hq⟩
      obtain rfl := Option.some.inj hfirst
      obtain rfl := Nat.le_antisymm (hleast p hp) (hq place hat)
      rfl

theorem compile_ne_unterminated (h : pieces template.toList = .ok ps) (p : Nat) :
    compile template b ≠ .error (.unterminatedPlaceholder p) := by
  rcases compile_cases h b with ⟨-, text, hc⟩ | ⟨name, place, -, hc, -⟩ <;> simp [hc]

/-- A template that does not scan fails with the place of the open placeholder. -/
theorem exists_unterminated {e : Error} (h : pieces template.toList = .error e) :
    (∃ p, e = .unterminatedPlaceholder p) ∧ placeholders template = .error e ∧
      ∀ b, compile template b = .error e := by
  obtain ⟨p, rfl, -⟩ := (cut_eq_error_iff (Unclosed.none _) e).1 h
  refine ⟨⟨p, rfl⟩, by rw [placeholders, h]; rfl, fun b => ?_⟩
  rw [compile, h]
  rfl

theorem placeholders_eq_ok_iff {names : List String} :
    placeholders template = .ok names ↔
      ∃ ps, pieces template.toList = .ok ps ∧ Template.names ps = names :=
  Except.map_eq_ok_iff

/-- A template's names are known exactly where its compilation can succeed. -/
theorem exists_compile_iff (b : Bindings) :
    (∃ text, compile template b = .ok text) ↔
      ∃ names, placeholders template = .ok names ∧ firstMissing? b names = none := by
  cases h : pieces template.toList with
  | error e =>
    obtain ⟨-, hp, hc⟩ := exists_unterminated h
    simp [hp, hc]
  | ok ps =>
    have hp : placeholders template = .ok (names ps) := by
      rw [placeholders, h]
      rfl
    rcases compile_cases h b with ⟨hm, text, hc⟩ | ⟨name, place, hm, hc, -⟩ <;> simp [hp, hc, hm]

end

end AgentPrompt.Template
