import AgentPrompt.Proofs.Json.IntegerToken

namespace AgentPrompt.Json

/-! ## Spaces -/

def Spaces (s : List Char) : Prop :=
  ∀ c ∈ s, isSpace c = true

theorem exists_spaces_append (s : List Char) : ∃ left, Spaces left ∧ s = left ++ skipSpace s :=
  ⟨s.takeWhile isSpace, List.all_eq_true.1 List.all_takeWhile,
    List.takeWhile_append_dropWhile.symm⟩

theorem skipSpace_append {left : List Char} (h : Spaces left) (s : List Char) :
    skipSpace (left ++ s) = skipSpace s :=
  List.dropWhile_append_of_pos h

theorem skipSpace_skipSpace (s : List Char) : skipSpace (skipSpace s) = skipSpace s := by
  obtain ⟨left, hl, hs⟩ := exists_spaces_append s
  conv_rhs => rw [hs, skipSpace_append hl]

theorem skipSpace_eq_nil_iff {s : List Char} : skipSpace s = [] ↔ Spaces s := by
  constructor
  · intro h
    obtain ⟨left, hl, hs⟩ := exists_spaces_append s
    rw [h, List.append_nil] at hs
    rwa [hs]
  · intro h
    rw [← List.append_nil s, skipSpace_append h]
    rfl

theorem endsNumber_nil : EndsNumber [] :=
  ⟨⟨by simp [NoDigit], by simp⟩, rfl⟩

/-- A space, a comma or a bracket belongs to no number. -/
theorem endsNumber_spaces_append {right : List Char} (hr : Spaces right) {c : Char}
    (hc : c = ',' ∨ c = ']') (s : List Char) : EndsNumber (right ++ c :: s) := by
  cases right with
  | nil => rcases hc with rfl | rfl <;> exact ⟨⟨by simp [NoDigit], by simp⟩, rfl⟩
  | cons d right =>
    have hd := hr d List.mem_cons_self
    simp only [isSpace, Bool.or_eq_true, beq_iff_eq] at hd
    rcases hd with ((rfl | rfl) | rfl) | rfl <;> exact ⟨⟨by simp [NoDigit], by simp⟩, rfl⟩

/-! ## One value -/

section
variable {fuel depth : Nat} {s rest : List Char}

/-- Spaces before a value do not count. -/
theorem readValue_skipSpace (fuel depth : Nat) (s : List Char) :
    readValue fuel depth (skipSpace s) = readValue fuel depth s := by
  cases fuel with
  | zero => rfl
  | succ fuel => rw [readValue, readValue, skipSpace_skipSpace]

theorem readItems_skipSpace (fuel depth : Nat) (s : List Char) :
    readItems fuel depth (skipSpace s) = readItems fuel depth s := by
  cases fuel with
  | zero => rfl
  | succ fuel => rw [readItems, readItems, readValue_skipSpace]

theorem exists_number_of_readNumber {negative : Bool} {v : Json}
    (h : readNumber negative s = .ok (v, rest)) : ∃ m, v = number m := by
  obtain ⟨t, m, -, rfl⟩ := exists_value_of_readNumber h
  exact ⟨m, rfl⟩

theorem readValue_minus (fuel depth : Nat) (s : List Char) :
    readValue (fuel + 1) depth ('-' :: s) = readNumber true s := by
  rw [readValue, skipSpace_cons rfl]
  rfl

/-- A whole number is read exactly where a token stands that is not continued. -/
theorem readValue_eq_int_iff {n : Int} :
    readValue (fuel + 1) depth s = .ok (number (.int n), rest) ↔
      ∃ token, skipSpace s = token ++ rest ∧ EndsNumber rest ∧ Integer64Token token n := by
  constructor
  · intro h
    rw [readValue] at h
    split at h
    · simp at h
    · simpa using eq_of_readWord h
    · simpa using eq_of_readWord h
    · simpa using eq_of_readWord h
    · simp [Except.bind_eq_ok_iff] at h
    · rename_i after hs
      obtain ⟨ds, rfl, hends, -, htoken⟩ := readNumber_eq_int_iff.1 h
      exact ⟨'-' :: ds, hs, hends, htoken⟩
    · split at h
      · simp at h
      · split at h <;> simp [Except.bind_eq_ok_iff] at h
    · split at h
      · simp at h
      · split at h <;> simp [Except.bind_eq_ok_iff] at h
    · rename_i hs
      split at h
      · obtain ⟨ds, hds, hends, -, htoken⟩ := readNumber_eq_int_iff.1 h
        exact ⟨ds, hs.trans hds, hends, htoken⟩
      · simp at h
  · rintro ⟨token, hs, hends, htoken⟩
    rw [← readValue_skipSpace, hs]
    obtain ⟨hgrammar, -⟩ := id htoken
    cases hgrammar with
    | @unsigned ds hd =>
      obtain ⟨c, more, rfl⟩ := List.exists_cons_of_ne_nil hd.ne_nil
      rw [List.cons_append, readValue_digit (hd.digits c List.mem_cons_self)]
      exact readNumber_eq_int_iff.2 ⟨c :: more, rfl, hends, hd, htoken⟩
    | @negative ds hd hz =>
      rw [List.cons_append, readValue_minus]
      exact readNumber_eq_int_iff.2 ⟨ds, rfl, hends, hd, htoken⟩

/-- No value starts with a closing bracket. -/
theorem readItems_bracket (fuel depth : Nat) (h : skipSpace s = ']' :: rest) :
    ∃ e, readItems fuel depth s = .error e := by
  match fuel with
  | 0 => exact ⟨_, rfl⟩
  | 1 => exact ⟨_, rfl⟩
  | fuel + 2 =>
    rw [readItems, readValue, h]
    exact ⟨_, rfl⟩

/-- An array is read exactly where a bracket opens it, and closes it at once or after its items. -/
theorem readValue_eq_array_iff {items : List Json} :
    readValue (fuel + 1) (depth + 1) s = .ok (array items, rest) ↔
      ∃ inner, skipSpace s = '[' :: inner ∧
        (skipSpace inner = ']' :: rest ∧ items = [] ∨
          readItems fuel depth inner = .ok (items, rest)) := by
  constructor
  · intro h
    rw [readValue] at h
    split at h
    · simp at h
    · simpa using eq_of_readWord h
    · simpa using eq_of_readWord h
    · simpa using eq_of_readWord h
    · simp [Except.bind_eq_ok_iff] at h
    · simpa using exists_number_of_readNumber h
    · rename_i inner hs
      refine ⟨inner, hs, ?_⟩
      simp only at h
      split at h
      · rename_i hclose
        obtain ⟨hitems, rfl⟩ := Prod.mk.inj (Except.ok.inj h)
        exact Or.inl ⟨hclose, (array.inj hitems).symm⟩
      · simp only [Except.bind_eq_ok_iff, Prod.exists, Except.ok.injEq, Prod.mk.injEq,
          array.injEq, readItems_skipSpace] at h
        obtain ⟨_, _, hread, rfl, rfl⟩ := h
        exact Or.inr hread
    · simp only at h
      split at h <;> simp [Except.bind_eq_ok_iff] at h
    · split at h
      · simpa using exists_number_of_readNumber h
      · simp at h
  · rintro ⟨inner, hs, ⟨hclose, rfl⟩ | hread⟩
    · rw [readValue, hs]
      simp only [hclose]
    · rw [readValue, hs]
      simp only
      split
      · rename_i hclose
        obtain ⟨e, he⟩ := readItems_bracket fuel depth hclose
        rw [he] at hread
        cases hread
      · rw [readItems_skipSpace, hread]
        rfl

theorem readItems_succ_eq_ok_iff {items : List Json} :
    readItems (fuel + 1) depth s = .ok (items, rest) ↔
      ∃ item after, readValue fuel depth s = .ok (item, after) ∧
        (skipSpace after = ']' :: rest ∧ items = [item] ∨
          ∃ next more, skipSpace after = ',' :: next ∧
            readItems fuel depth next = .ok (more, rest) ∧ items = item :: more) := by
  simp only [readItems, Except.bind_eq_ok_iff, Prod.exists]
  constructor
  · rintro ⟨item, after, hitem, h⟩
    refine ⟨item, after, hitem, ?_⟩
    split at h
    · rename_i hclose
      obtain ⟨rfl, rfl⟩ := Prod.mk.inj (Except.ok.inj h)
      exact Or.inl ⟨hclose, rfl⟩
    · rename_i next hcomma
      simp only [Except.bind_eq_ok_iff, Prod.exists, Except.ok.injEq, Prod.mk.injEq] at h
      obtain ⟨more, _, hmore, rfl, rfl⟩ := h
      exact Or.inr ⟨next, more, hcomma, hmore, rfl⟩
    · simp at h
    · simp at h
  · rintro ⟨item, after, hitem, ⟨hclose, rfl⟩ | ⟨next, more, hcomma, hmore, rfl⟩⟩
    · refine ⟨item, after, hitem, ?_⟩
      rw [hclose]
      rfl
    · refine ⟨item, after, hitem, ?_⟩
      rw [hcomma]
      simp only [hmore, bind, Except.bind]

end

/-! ## Lists laid out in a text -/

/-- Tokens with commas between them and spaces around each. -/
inductive ItemsLayout : List (List Char) → List Char → Prop where
  | last {left token right : List Char} (hl : Spaces left) (hr : Spaces right) :
    ItemsLayout [token] (left ++ token ++ right)
  | more {left token right : List Char} {tokens : List (List Char)} {text : List Char}
    (hl : Spaces left) (hr : Spaces right) (h : ItemsLayout tokens text) :
    ItemsLayout (token :: tokens) (left ++ token ++ right ++ ',' :: text)

/-- An array whose items are the tokens, with spaces where they may stand. -/
inductive ArrayLayout : List (List Char) → List Char → Prop where
  | empty {spaces : List Char} (h : Spaces spaces) : ArrayLayout [] ('[' :: spaces ++ [']'])
  | items {tokens : List (List Char)} {text : List Char} (h : ItemsLayout tokens text) :
    ArrayLayout tokens ('[' :: text ++ [']'])

/-- Each token but the last has its comma. -/
theorem ItemsLayout.length_le {tokens : List (List Char)} {text : List Char}
    (h : ItemsLayout tokens text) : tokens.length ≤ text.length + 1 := by
  induction h with
  | last hl hr => simp
  | more hl hr h ih =>
    simp only [List.length_cons, List.length_append]
    omega

def ofInt (n : Int) : Json :=
  number (.int n)

section
variable {fuel depth : Nat} {s rest : List Char}

theorem exists_token_of_readValue {n : Int} (h : readValue fuel depth s = .ok (ofInt n, rest)) :
    ∃ left token, Spaces left ∧ s = left ++ token ++ rest ∧ Integer64Token token n := by
  cases fuel with
  | zero => cases h
  | succ fuel =>
    obtain ⟨token, hs, -, htoken⟩ := readValue_eq_int_iff.1 h
    obtain ⟨left, hl, hsplit⟩ := exists_spaces_append s
    refine ⟨left, token, hl, ?_, htoken⟩
    rw [List.append_assoc, ← hs]
    exact hsplit

theorem readValue_spaced_token {left token right : List Char} {n : Int} {c : Char}
    (hl : Spaces left) (hr : Spaces right) (ht : Integer64Token token n) (hc : c = ',' ∨ c = ']') :
    readValue (fuel + 1) depth (left ++ token ++ right ++ c :: s) =
      .ok (ofInt n, right ++ c :: s) := by
  refine readValue_eq_int_iff.2 ⟨token, ?_, endsNumber_spaces_append hr hc s, ht⟩
  obtain ⟨d, more, rfl, hd⟩ := ht.1.exists_cons
  rw [List.append_assoc, List.append_assoc, skipSpace_append hl]
  exact skipSpace_cons hd.not_space _

/-- Whole numbers that are read up to a closing bracket were laid out before it. -/
theorem exists_layout_of_readItems {ns : List Int}
    (h : readItems fuel depth s = .ok (ns.map ofInt, rest)) :
    ∃ tokens text, ItemsLayout tokens text ∧ List.Forall₂ Integer64Token tokens ns ∧
      s = text ++ ']' :: rest := by
  induction fuel generalizing s ns with
  | zero => cases h
  | succ fuel ih =>
    obtain ⟨item, after, hitem, h⟩ := readItems_succ_eq_ok_iff.1 h
    obtain ⟨right, hr, hafter⟩ := exists_spaces_append after
    rcases h with ⟨hclose, hns⟩ | ⟨next, more, hcomma, hmore, hns⟩
    · obtain ⟨n, rfl, rfl⟩ := List.map_eq_singleton_iff.1 hns
      obtain ⟨left, token, hl, rfl, htoken⟩ := exists_token_of_readValue hitem
      rw [hclose] at hafter
      refine ⟨[token], left ++ token ++ right, .last hl hr, .cons htoken .nil, ?_⟩
      rw [hafter]
      simp only [List.append_assoc]
    · obtain ⟨n, ns, rfl, rfl, rfl⟩ := List.map_eq_cons_iff.1 hns
      obtain ⟨left, token, hl, rfl, htoken⟩ := exists_token_of_readValue hitem
      obtain ⟨tokens, text, hlayout, htokens, rfl⟩ := ih hmore
      rw [hcomma] at hafter
      refine ⟨token :: tokens, left ++ token ++ right ++ ',' :: text, .more hl hr hlayout,
        .cons htoken htokens, ?_⟩
      rw [hafter]
      simp only [List.append_assoc, List.cons_append]

/-- Whole numbers that are laid out before a closing bracket are read, with one step for each and
one for the last of them as a value. -/
theorem readItems_layout {tokens : List (List Char)} {text : List Char}
    (h : ItemsLayout tokens text) {ns : List Int} (hns : List.Forall₂ Integer64Token tokens ns)
    (hf : tokens.length + 1 ≤ fuel) (rest : List Char) :
    readItems fuel depth (text ++ ']' :: rest) = .ok (ns.map ofInt, rest) := by
  induction h generalizing fuel ns with
  | last hl hr =>
    obtain ⟨fuel, rfl⟩ : ∃ k, fuel = k + 2 := ⟨fuel - 2, by rw [List.length_singleton] at hf; omega⟩
    obtain ⟨n, _, htoken, hnil, rfl⟩ := List.forall₂_cons_left_iff.1 hns
    cases hnil
    refine readItems_succ_eq_ok_iff.2
      ⟨_, _, readValue_spaced_token hl hr htoken (Or.inr rfl), Or.inl ⟨?_, rfl⟩⟩
    rw [skipSpace_append hr]
    rfl
  | @more left token right tokens text hl hr h ih =>
    rw [List.length_cons] at hf
    obtain ⟨fuel, rfl⟩ : ∃ k, fuel = k + 2 := ⟨fuel - 2, by omega⟩
    obtain ⟨n, ns, htoken, hmore, rfl⟩ := List.forall₂_cons_left_iff.1 hns
    have hread := ih hmore (by omega : tokens.length + 1 ≤ fuel + 1)
    rw [List.append_assoc _ (',' :: text), List.cons_append]
    refine readItems_succ_eq_ok_iff.2
      ⟨_, _, readValue_spaced_token hl hr htoken (Or.inl rfl), Or.inr ⟨_, _, ?_, hread, rfl⟩⟩
    rw [skipSpace_append hr]
    rfl

end

/-! ## Whole texts -/

theorem readText_eq_ok_iff {s : List Char} {v : Json} :
    readText s = .ok v ↔
      ∃ rest, readValue (2 * s.length + 2) nestingLimit s = .ok (v, rest) ∧ Spaces rest := by
  simp only [readText, Except.bind_eq_ok_iff, Prod.exists, ← skipSpace_eq_nil_iff]
  constructor
  · rintro ⟨w, rest, hread, h⟩
    split at h
    · rename_i hrest
      obtain rfl := Except.ok.inj h
      exact ⟨rest, hread, hrest⟩
    · cases h
  · rintro ⟨rest, hread, hrest⟩
    refine ⟨v, rest, hread, ?_⟩
    rw [hrest]

structure Unspaced (s : List Char) : Prop where
  head : ∀ c ∈ s.head?, isSpace c = false
  last : ∀ c ∈ s.getLast?, isSpace c = false

namespace Unspaced
variable {s : List Char}

theorem skipSpace_eq (h : Unspaced s) : skipSpace s = s := by
  cases s with
  | nil => rfl
  | cons c s => exact skipSpace_cons (h.head c rfl) s

/-- No spaces are left over behind a value. -/
theorem rest_eq_nil {front rest : List Char} (h : Unspaced (front ++ rest)) (hr : Spaces rest) :
    rest = [] := by
  by_contra hne
  have hlast := h.last (rest.getLast hne) (by
    rw [List.getLast?_append_of_ne_nil _ hne, List.getLast?_eq_some_getLast hne]
    rfl)
  rw [hr _ (List.getLast_mem hne)] at hlast
  cases hlast

theorem readText_eq_int_iff (h : Unspaced s) {n : Int} :
    readText s = .ok (ofInt n) ↔ Integer64Token s n := by
  rw [readText_eq_ok_iff]
  constructor
  · rintro ⟨rest, hread, hrest⟩
    obtain ⟨token, hs, -, htoken⟩ := readValue_eq_int_iff.1 hread
    rw [h.skipSpace_eq] at hs
    subst hs
    rwa [h.rest_eq_nil hrest, List.append_nil]
  · intro htoken
    refine ⟨[], readValue_eq_int_iff.2 ⟨s, ?_, endsNumber_nil, htoken⟩, by simp [Spaces]⟩
    rw [h.skipSpace_eq, List.append_nil]

/-- An array of whole numbers nests one level, which is never too deep. -/
theorem readText_eq_array_iff (h : Unspaced s) {ns : List Int} :
    readText s = .ok (array (ns.map ofInt)) ↔
      ∃ tokens, ArrayLayout tokens s ∧ List.Forall₂ Integer64Token tokens ns := by
  have hlimit : nestingLimit = 126 + 1 := rfl
  rw [readText_eq_ok_iff, hlimit]
  constructor
  · rintro ⟨rest, hread, hrest⟩
    obtain ⟨inner, hs, hitems⟩ := readValue_eq_array_iff.1 hread
    rw [h.skipSpace_eq] at hs
    subst hs
    rcases hitems with ⟨hclose, hns⟩ | hitems
    · obtain ⟨spaces, hspaces, hinner⟩ := exists_spaces_append inner
      rw [hclose] at hinner
      subst hinner
      have hsplit : Unspaced ('[' :: spaces ++ [']'] ++ rest) := by simpa using h
      rw [List.map_eq_nil_iff.1 hns, hsplit.rest_eq_nil hrest]
      exact ⟨[], .empty hspaces, .nil⟩
    · obtain ⟨tokens, text, hlayout, htokens, rfl⟩ := exists_layout_of_readItems hitems
      have hsplit : Unspaced ('[' :: text ++ [']'] ++ rest) := by simpa using h
      rw [hsplit.rest_eq_nil hrest]
      exact ⟨tokens, .items hlayout, htokens⟩
  · rintro ⟨tokens, hlayout, htokens⟩
    refine ⟨[], readValue_eq_array_iff.2 ?_, by simp [Spaces]⟩
    rw [h.skipSpace_eq]
    cases hlayout with
    | @empty spaces hspaces =>
      cases htokens
      refine ⟨spaces ++ [']'], rfl, Or.inl ⟨?_, rfl⟩⟩
      rw [skipSpace_append hspaces]
      rfl
    | @items tokens text hlayout =>
      have hlength := hlayout.length_le
      refine ⟨text ++ [']'], rfl, Or.inr (readItems_layout hlayout htokens ?_ [])⟩
      simp only [List.cons_append, List.length_cons, List.length_append]
      omega

end Unspaced

end AgentPrompt.Json
