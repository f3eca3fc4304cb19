import AgentPrompt.Proofs.Except
import AgentPrompt.Proofs.Json.NumberText

/-! The reader needs room for the nesting of a printed value, and two steps for each character are
enough. -/
namespace AgentPrompt.Json

/-! ## Strings -/

theorem hex4?_hexDigits {n : Nat} (h : n < 0x20) :
    hex4? '0' '0' (hexDigit (n / 16)) (hexDigit (n % 16)) = some n := by
  have hall : ∀ k < 0x20, hex4? '0' '0' (hexDigit (k / 16)) (hexDigit (k % 16)) = some k := by
    decide
  exact hall n h

theorem char_eq_of_toNat {c : Char} {n : Nat} (h : c.toNat = n) : c = Char.ofNat n := by
  rw [← h, Char.ofNat_toNat]

/-- An escaped character is read as that character. -/
theorem readString_escape (text : List Char) (c : Char) (rest : List Char) :
    readString text (escape c ++ rest) = readString (c :: text) rest := by
  unfold escape
  split
  · subst_vars
    simp [readString, simpleEscape?]
  · split
    · subst_vars
      simp [readString, simpleEscape?]
    · split
      · rename_i hlt
        split
        · rename_i hn
          simp [readString, simpleEscape?, char_eq_of_toNat hn]
        · rename_i hn
          simp [readString, simpleEscape?, char_eq_of_toNat hn]
        · rename_i hn
          simp [readString, simpleEscape?, char_eq_of_toNat hn]
        · rename_i hn
          simp [readString, simpleEscape?, char_eq_of_toNat hn]
        · rename_i hn
          simp [readString, simpleEscape?, char_eq_of_toNat hn]
        · have hlow : isLowSurrogate c.toNat = false := by
            simp [isLowSurrogate]
            omega
          have hhigh : isHighSurrogate c.toNat = false := by
            simp [isHighSurrogate]
            omega
          simp [readString, hex4?_hexDigits hlt, hlow, hhigh, Char.ofNat_toNat]
      · rename_i hquote hslash hlt
        rw [List.singleton_append, readString.eq_def]
        split <;> simp_all

theorem readString_quoted (text s rest : List Char) :
    readString text (s.flatMap escape ++ '"' :: rest) =
      .ok (String.ofList (text.reverse ++ s), rest) := by
  induction s generalizing text with
  | nil => simp [readString]
  | cons c s ih =>
    rw [List.flatMap_cons, List.append_assoc, readString_escape, ih]
    simp

theorem readString_text (s : String) (rest : List Char) :
    readString [] (s.toList.flatMap escape ++ '"' :: rest) = .ok (s, rest) := by
  rw [readString_quoted]
  simp

/-! ## Nesting, numbers, and the value read back -/

mutual
def depth : Json → Nat
  | array items => depthItems items + 1
  | object members => depthMembers members + 1
  | _ => 0

def depthItems : List Json → Nat
  | [] => 0
  | v :: rest => max (depth v) (depthItems rest)

def depthMembers : List (String × Json) → Nat
  | [] => 0
  | (_, v) :: rest => max (depth v) (depthMembers rest)
end

mutual
/-- All numbers of the value are such as the reader returns. -/
def Valid : Json → Prop
  | number n => n.Valid
  | array items => ValidItems items
  | object members => ValidMembers members
  | _ => True

def ValidItems : List Json → Prop
  | [] => True
  | v :: rest => Valid v ∧ ValidItems rest

def ValidMembers : List (String × Json) → Prop
  | [] => True
  | (_, v) :: rest => Valid v ∧ ValidMembers rest
end

mutual
/-- The value that the text of a value is read as. -/
def reread : Json → Json
  | number n => number n.reread
  | array items => array (rereadItems items)
  | object members => object (rereadMembers [] members)
  | v => v

def rereadItems : List Json → List Json
  | [] => []
  | v :: rest => reread v :: rereadItems rest

/-- Adds the members, as they are read, to those before them. -/
def rereadMembers (before : List (String × Json)) :
    List (String × Json) → List (String × Json)
  | [] => before
  | (k, v) :: rest => rereadMembers (insertMember k (reread v) before) rest
end

/-! ## First characters -/

def StartsValue (c : Char) : Prop :=
  c ∈ ['n', 't', 'f', '"', '-', '[', '\x7b'] ∨ c.isDigit = true

theorem StartsValue.not_space {c : Char} (h : StartsValue c) : isSpace c = false := by
  rcases h with h | h
  · simp only [List.mem_cons, List.not_mem_nil, or_false] at h
    rcases h with rfl | rfl | rfl | rfl | rfl | rfl | rfl <;> rfl
  · cases hs : isSpace c with
    | false => rfl
    | true =>
      simp only [isSpace, Bool.or_eq_true, beq_iff_eq] at hs
      rcases hs with ((rfl | rfl) | rfl) | rfl <;> simp at h

theorem StartsValue.ne_bracket {c : Char} (h : StartsValue c) : c ≠ ']' := by
  rintro rfl
  simp [StartsValue] at h

theorem exists_numeral_cons (n : Number) :
    ∃ c s, n.numeral.text = c :: s ∧ c.isDigit = true := by
  have hw := (wellFormed_numeral n).whole
  obtain ⟨c, ds, hd⟩ := List.exists_cons_of_ne_nil hw.ne_nil
  refine ⟨c, ds ++ fractionText n.numeral.fraction ++ powerText n.numeral.power, ?_, ?_⟩
  · rw [Numeral.text, hd]
    rfl
  · exact hw.digits c (by simp [hd])

/-- A value's text is not empty and starts with no space. -/
theorem exists_chars_cons (v : Json) : ∃ c s, chars v = c :: s ∧ StartsValue c := by
  cases v with
  | null => exact ⟨_, _, rfl, by simp [StartsValue]⟩
  | bool b => cases b with
    | false => exact ⟨_, _, rfl, by simp [StartsValue]⟩
    | true => exact ⟨_, _, rfl, by simp [StartsValue]⟩
  | number n =>
    obtain ⟨c, s, ht, hc⟩ := exists_numeral_cons n
    rw [chars, numeral_text, ht]
    split
    · exact ⟨_, _, rfl, by simp [StartsValue]⟩
    · exact ⟨c, s, rfl, Or.inr hc⟩
  | string s => exact ⟨_, _, rfl, by simp [StartsValue]⟩
  | array items => exact ⟨_, _, rfl, by simp [StartsValue]⟩
  | object members => exact ⟨_, _, rfl, by simp [StartsValue]⟩

theorem skipSpace_cons {c : Char} (h : isSpace c = false) (s : List Char) :
    skipSpace (c :: s) = c :: s := by
  simp [skipSpace, h]

/-! ## One step of the reader -/

theorem eq_of_readWord {word s rest : List Char} {value v : Json}
    (h : readWord word value s = .ok (v, rest)) : v = value := by
  unfold readWord at h
  split at h
  · exact (Prod.mk.inj (Except.ok.inj h)).1.symm
  · split at h <;> simp at h

theorem exists_value_of_readNumber {negative : Bool} {s rest : List Char} {v : Json}
    (h : readNumber negative s = .ok (v, rest)) :
    ∃ (t : NumberToken) (m : Number), t.value = .ok m ∧ v = number m := by
  simp only [readNumber, Except.bind_eq_ok_iff, Prod.exists, Except.ok.injEq, Prod.mk.injEq] at h
  obtain ⟨whole, s₁, -, fraction, s₂, -, power, s₃, -, m, hm, rfl, -⟩ := h
  exact ⟨_, m, hm, rfl⟩

theorem readValue_digit {c : Char} (hc : c.isDigit = true) (fuel depth : Nat) (s : List Char) :
    readValue (fuel + 1) depth (c :: s) = readNumber false (c :: s) := by
  have hspace : skipSpace (c :: s) = c :: s :=
    skipSpace_cons (StartsValue.not_space (Or.inr hc)) s
  rw [readValue, hspace]
  split <;> simp_all

theorem readValue_number {n : Number} (h : n.Valid) (fuel depth : Nat) {rest : List Char}
    (hr : Delimited rest) :
    readValue (fuel + 1) depth (chars (number n) ++ rest) = .ok (number n.reread, rest) := by
  have hread := readNumber_numeral h hr
  rw [chars, numeral_text]
  cases hneg : n.isNegative with
  | true =>
    rw [hneg] at hread
    simpa [readValue, skipSpace, isSpace] using hread
  | false =>
    rw [hneg] at hread
    obtain ⟨c, s, ht, hc⟩ := exists_numeral_cons n
    rw [ht] at hread ⊢
    simpa [readValue_digit hc] using hread

theorem readValue_array {c : Char} (hc : StartsValue c) (fuel depth : Nat) (s : List Char) :
    readValue (fuel + 1) (depth + 1) ('[' :: c :: s) =
      (readItems fuel depth (c :: s)).map fun p => (array p.1, p.2) := by
  have hbracket := hc.ne_bracket
  have hspace : skipSpace (c :: s) = c :: s := skipSpace_cons hc.not_space s
  have hopen : skipSpace ('[' :: c :: s) = '[' :: c :: s := skipSpace_cons rfl _
  rw [readValue, hopen]
  simp only [hspace]
  split
  · simp_all
  · simp only [bind, Except.bind]
    cases readItems fuel depth (c :: s) <;> rfl

theorem readValue_object (fuel depth : Nat) (s : List Char) :
    readValue (fuel + 1) (depth + 1) ('\x7b' :: '"' :: s) =
      (readMembers fuel depth [] ('"' :: s)).map fun p => (object p.1, p.2) := by
  have hspace : skipSpace ('"' :: s) = '"' :: s := skipSpace_cons rfl s
  have hopen : skipSpace ('\x7b' :: '"' :: s) = '\x7b' :: '"' :: s := skipSpace_cons rfl _
  rw [readValue, hopen]
  simp only [hspace]
  split
  · simp_all
  · simp only [bind, Except.bind]
    cases readMembers fuel depth [] ('"' :: s) <;> rfl

/-- One item of an array and what the reader does after it. -/
theorem readItems_last {fuel depth : Nat} {s rest : List Char} {v : Json}
    (h : readValue fuel depth s = .ok (v, ']' :: rest)) :
    readItems (fuel + 1) depth s = .ok ([v], rest) := by
  simp [readItems, h, bind, Except.bind, skipSpace_cons (show isSpace ']' = false from rfl)]

theorem readItems_more {fuel depth : Nat} {s rest rest' : List Char} {v : Json} {items : List Json}
    (h : readValue fuel depth s = .ok (v, ',' :: rest))
    (hmore : readItems fuel depth rest = .ok (items, rest')) :
    readItems (fuel + 1) depth s = .ok (v :: items, rest') := by
  simp [readItems, h, hmore, bind, Except.bind, skipSpace_cons (show isSpace ',' = false from rfl)]

section
variable {fuel depth : Nat} {before : List (String × Json)} {key : String} {s rest : List Char}
  {v : Json}

theorem readMembers_last (h : readValue fuel depth s = .ok (v, '\x7d' :: rest)) :
    readMembers (fuel + 1) depth before (quoted key.toList ++ ':' :: s) =
      .ok (insertMember key v before, rest) := by
  have hkey := readString_text key (':' :: s)
  simp [readMembers, quoted, skipSpace_cons (show isSpace '"' = false from rfl), hkey, h, bind,
    Except.bind, skipSpace_cons (show isSpace ':' = false from rfl),
    skipSpace_cons (show isSpace '\x7d' = false from rfl)]

theorem readMembers_more (h : readValue fuel depth s = .ok (v, ',' :: rest)) :
    readMembers (fuel + 1) depth before (quoted key.toList ++ ':' :: s) =
      readMembers fuel depth (insertMember key v before) rest := by
  have hkey := readString_text key (':' :: s)
  simp [readMembers, quoted, skipSpace_cons (show isSpace '"' = false from rfl), hkey, h, bind,
    Except.bind, skipSpace_cons (show isSpace ':' = false from rfl),
    skipSpace_cons (show isSpace ',' = false from rfl)]

end

/-! ## Whole values -/

theorem exists_itemsText_cons (v : Json) (items : List Json) :
    ∃ c s, itemsText (v :: items) = c :: s ∧ StartsValue c := by
  obtain ⟨c, s, hv, hc⟩ := exists_chars_cons v
  cases items with
  | nil => exact ⟨c, s, hv, hc⟩
  | cons w items => exact ⟨c, s ++ ',' :: itemsText (w :: items), by rw [itemsText, hv]; rfl, hc⟩

theorem exists_membersText_cons (m : String × Json) (members : List (String × Json)) :
    ∃ s, membersText (m :: members) = '"' :: s := by
  cases members with
  | nil => exact ⟨_, rfl⟩
  | cons m' members => exact ⟨_, rfl⟩

mutual
/-- A value's text is read as that value, up to what delimits it. -/
theorem readValue_chars (v : Json) (hv : v.Valid) (fuel limit : Nat)
    (hf : 2 * (chars v).length ≤ fuel) (hd : v.depth ≤ limit) {rest : List Char}
    (hr : Delimited rest) : readValue fuel limit (chars v ++ rest) = .ok (v.reread, rest) := by
  have hpos : 0 < (chars v).length := by
    obtain ⟨c, s, hc, -⟩ := exists_chars_cons v
    simp [hc]
  obtain ⟨fuel, rfl⟩ : ∃ k, fuel = k + 1 := ⟨fuel - 1, by omega⟩
  match v with
  | null => simp [chars, readValue, skipSpace, isSpace, readWord, reread]
  | bool true => simp [chars, readValue, skipSpace, isSpace, readWord, reread]
  | bool false => simp [chars, readValue, skipSpace, isSpace, readWord, reread]
  | number n => exact readValue_number hv fuel limit hr
  | string s =>
    have hs := readString_text s rest
    simp [chars, quoted, readValue, skipSpace, isSpace, reread, bind, Except.bind, hs]
  | array [] =>
    rw [Json.depth] at hd
    obtain ⟨limit, rfl⟩ : ∃ k, limit = k + 1 := ⟨limit - 1, by omega⟩
    simp [chars, itemsText, readValue, skipSpace, isSpace, reread, rereadItems]
  | array (w :: items) =>
    rw [Json.depth] at hd
    rw [chars] at hf
    obtain ⟨limit, rfl⟩ : ∃ k, limit = k + 1 := ⟨limit - 1, by omega⟩
    have hfuel : 2 * (itemsText (w :: items)).length + 1 ≤ fuel := by
      simp only [List.length_append, List.length_cons, List.length_nil] at hf
      omega
    have hitems := readItems_text (w :: items) (by simp) hv fuel limit hfuel (by omega) rest
    obtain ⟨c, s, hc, hstart⟩ := exists_itemsText_cons w items
    rw [hc, List.cons_append] at hitems
    simp only [chars, hc, List.cons_append, List.append_assoc, List.nil_append]
    rw [readValue_array hstart, hitems, reread]
    rfl
  | object [] =>
    rw [Json.depth] at hd
    obtain ⟨limit, rfl⟩ : ∃ k, limit = k + 1 := ⟨limit - 1, by omega⟩
    simp [chars, membersText, readValue, skipSpace, isSpace, reread, rereadMembers]
  | object (m :: members) =>
    rw [Json.depth] at hd
    rw [chars] at hf
    obtain ⟨limit, rfl⟩ : ∃ k, limit = k + 1 := ⟨limit - 1, by omega⟩
    have hfuel : 2 * (membersText (m :: members)).length + 1 ≤ fuel := by
      simp only [List.length_append, List.length_cons, List.length_nil] at hf
      omega
    have hmembers := readMembers_text (m :: members) (by simp) hv fuel limit hfuel (by omega) [] rest
    obtain ⟨s, hs⟩ := exists_membersText_cons m members
    rw [hs, List.cons_append] at hmembers
    simp only [chars, hs, List.cons_append, List.append_assoc, List.nil_append]
    rw [readValue_object, hmembers, reread]
    rfl

theorem readItems_text (items : List Json) (hne : items ≠ []) (hv : ValidItems items)
    (fuel limit : Nat) (hf : 2 * (itemsText items).length + 1 ≤ fuel)
    (hd : depthItems items ≤ limit) (rest : List Char) :
    readItems fuel limit (itemsText items ++ ']' :: rest) = .ok (rereadItems items, rest) := by
  obtain ⟨fuel, rfl⟩ : ∃ k, fuel = k + 1 := ⟨fuel - 1, by omega⟩
  match items with
  | [] => exact absurd rfl hne
  | [v] =>
    rw [depthItems] at hd
    rw [itemsText] at hf ⊢
    have hr : Delimited (']' :: rest) := Or.inr (Or.inl rfl)
    have hread := readValue_chars v hv.1 fuel limit (by omega) (by omega) hr
    exact readItems_last hread
  | v :: w :: items =>
    rw [depthItems] at hd
    rw [itemsText] at hf ⊢
    simp only [List.length_append, List.length_cons] at hf
    have hr : Delimited (',' :: (itemsText (w :: items) ++ ']' :: rest)) := Or.inl rfl
    have hread := readValue_chars v hv.1 fuel limit (by omega) (by omega) hr
    have hmore := readItems_text (w :: items) (by simp) hv.2 fuel limit (by omega) (by omega) rest
    rw [List.append_assoc, List.cons_append]
    exact readItems_more hread hmore

theorem readMembers_text (members : List (String × Json)) (hne : members ≠ [])
    (hv : ValidMembers members) (fuel limit : Nat)
    (hf : 2 * (membersText members).length + 1 ≤ fuel) (hd : depthMembers members ≤ limit)
    (before : List (String × Json)) (rest : List Char) :
    readMembers fuel limit before (membersText members ++ '\x7d' :: rest) =
      .ok (rereadMembers before members, rest) := by
  obtain ⟨fuel, rfl⟩ : ∃ k, fuel = k + 1 := ⟨fuel - 1, by omega⟩
  match members with
  | [] => exact absurd rfl hne
  | [(key, v)] =>
    rw [depthMembers] at hd
    rw [membersText] at hf ⊢
    simp only [List.length_append, List.length_cons] at hf
    have hr : Delimited ('\x7d' :: rest) := Or.inr (Or.inr rfl)
    have hread := readValue_chars v hv.1 fuel limit (by omega) (by omega) hr
    rw [List.append_assoc, List.cons_append]
    exact readMembers_last hread
  | (key, v) :: m :: members =>
    rw [depthMembers] at hd
    rw [membersText] at hf ⊢
    simp only [List.length_append, List.length_cons] at hf
    have hr : Delimited (',' :: (membersText (m :: members) ++ '\x7d' :: rest)) := Or.inl rfl
    have hread := readValue_chars v hv.1 fuel limit (by omega) (by omega) hr
    have hmore := readMembers_text (m :: members) (by simp) hv.2 fuel limit (by omega) (by omega)
      (insertMember key v.reread before) rest
    simp only [List.append_assoc, List.cons_append]
    rw [readMembers_more hread, hmore]
    rfl
end

/-- A value that nests no deeper than the reader allows is read back from its text. -/
theorem readText_chars {v : Json} (hv : v.Valid) (hd : v.depth ≤ nestingLimit) :
    readText (chars v) = .ok v.reread := by
  have hr : Delimited [] := trivial
  have hread := readValue_chars v hv _ _ (Nat.le_add_right (2 * (chars v).length) 2) hd hr
  rw [List.append_nil] at hread
  simp [readText, hread, bind, Except.bind, skipSpace]

end AgentPrompt.Json
