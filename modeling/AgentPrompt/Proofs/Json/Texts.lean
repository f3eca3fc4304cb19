import AgentPrompt.Proofs.Json.Printed
import AgentPrompt.Proofs.Text.Infix

/-! A text that opens with an angle bracket and needs no escapes occurs in a printed value exactly
if it occurs in one of its strings or keys. -/
namespace AgentPrompt.Json

mutual
def texts : Json → List String
  | string s => [s]
  | array items => itemsTexts items
  | object members => membersTexts members
  | _ => []

def itemsTexts : List Json → List String
  | [] => []
  | v :: rest => texts v ++ itemsTexts rest

def membersTexts : List (String × Json) → List String
  | [] => []
  | (k, v) :: rest => k :: texts v ++ membersTexts rest
end

/-- The characters that stand around strings or before what is escaped. -/
def punctuation : List Char := ['"', '\\', ',', ':', '[', ']', '\x7b', '\x7d']

/-- A text that can be told apart from everything that printing adds to a value's texts. -/
structure Apart (m : List Char) : Prop where
  opens : m.head? = some '<'
  plain : ∀ c ∈ m, 0x20 ≤ c.toNat ∧ c ∉ punctuation

instance (m : List Char) : Decidable (Apart m) :=
  decidable_of_iff (m.head? = some '<' ∧ m.all fun c => 0x20 ≤ c.toNat ∧ c ∉ punctuation)
    ⟨fun h => ⟨h.1, List.all_iff_forall_prop.1 h.2⟩,
      fun h => ⟨h.opens, List.all_iff_forall_prop.2 h.plain⟩⟩

namespace Apart

variable {m : List Char} (h : Apart m)
include h

theorem ne_nil : m ≠ [] := by
  rintro rfl
  cases h.opens

theorem bracket_mem : '<' ∈ m :=
  List.mem_of_head? h.opens

theorem not_infix {s : List Char} (hs : '<' ∉ s) : ¬ m <:+: s :=
  Text.not_infix_of_not_mem h.bracket_mem hs

theorem punctuation_not_mem {c : Char} (hc : c ∈ punctuation) : c ∉ m :=
  fun hm => (h.plain c hm).2 hc

theorem newline_not_mem : '\n' ∉ m := by
  intro hm
  have hle := (h.plain _ hm).1
  simp at hle

end Apart

/-! ## Strings -/

theorem hexDigit_ne_bracket {n : Nat} (h : n < 16) : hexDigit n ≠ '<' := by
  have hall : ∀ k < 16, hexDigit k ≠ '<' := by decide
  exact hall n h

/-- What is escaped gives way to a backslash and characters other than an angle bracket. -/
theorem escape_cases (c : Char) :
    escape c = [c] ∨
      (c.toNat < 0x20 ∨ c ∈ punctuation) ∧ ∃ more, escape c = '\\' :: more ∧ '<' ∉ more := by
  unfold escape
  split
  · rename_i hc
    exact Or.inr ⟨Or.inr (by simp [hc, punctuation]), _, rfl, by simp⟩
  · split
    · rename_i hc
      exact Or.inr ⟨Or.inr (by simp [hc, punctuation]), _, rfl, by simp⟩
    · split
      · rename_i hlt
        refine Or.inr ⟨Or.inl hlt, ?_⟩
        split
        · exact ⟨_, rfl, by simp⟩
        · exact ⟨_, rfl, by simp⟩
        · exact ⟨_, rfl, by simp⟩
        · exact ⟨_, rfl, by simp⟩
        · exact ⟨_, rfl, by simp⟩
        · have hhigh := hexDigit_ne_bracket (show c.toNat / 16 < 16 by omega)
          have hlow := hexDigit_ne_bracket (show c.toNat % 16 < 16 by omega)
          exact ⟨_, rfl, by simp [hhigh.symm, hlow.symm]⟩
      · exact Or.inl rfl

section
variable {m : List Char} (h : Apart m)
include h

theorem infix_append_escaped_iff (a s : List Char) :
    m <:+: a ++ s.flatMap escape ↔ m <:+: a ++ s := by
  induction s generalizing a with
  | nil => rfl
  | cons c s ih =>
    rw [List.flatMap_cons]
    rcases escape_cases c with hc | ⟨hc, more, hescape, hmore⟩
    · have hsame := ih (a ++ [c])
      rw [List.append_assoc, List.append_assoc] at hsame
      rw [hc]
      exact hsame
    · have hslash : '\\' ∉ m := h.punctuation_not_mem (by simp [punctuation])
      have hcm : c ∉ m := by
        intro hm
        obtain ⟨hle, hp⟩ := h.plain c hm
        rcases hc with hc | hc
        · omega
        · exact hp hc
      have hnil := ih []
      rw [List.nil_append, List.nil_append] at hnil
      rw [hescape, List.cons_append, Text.infix_append_cons_iff hslash,
        Text.infix_append_iff_of_head h.opens hmore, Text.infix_append_cons_iff hcm, hnil]

theorem infix_quoted_iff (s : List Char) : m <:+: quoted s ↔ m <:+: s := by
  have hquote : '"' ∉ m := h.punctuation_not_mem (by simp [punctuation])
  have hinner := infix_append_escaped_iff h [] s
  rw [List.nil_append, List.nil_append] at hinner
  rw [quoted, List.cons_append, Text.infix_cons_iff_of_not_mem h.ne_nil hquote,
    Text.infix_append_cons_iff hquote, hinner, List.infix_nil, or_iff_left h.ne_nil]

/-! ## Values -/

theorem not_infix_number (n : Number) : ¬ m <:+: n.text := by
  refine h.not_infix fun hmem => ?_
  rcases isNumeric_number n '<' hmem with hc | hc
  · exact absurd hc (by decide)
  · exact absurd hc (by decide)

mutual
theorem infix_chars_iff (v : Json) : m <:+: chars v ↔ ∃ s ∈ texts v, m <:+: s.toList := by
  match v with
  | null => simpa [texts] using h.not_infix (by simp [chars])
  | bool true => simpa [texts] using h.not_infix (by simp [chars])
  | bool false => simpa [texts] using h.not_infix (by simp [chars])
  | number n => simpa [texts, chars] using not_infix_number h n
  | string s => simpa [texts, chars] using infix_quoted_iff h s.toList
  | array items =>
    have hopen : '[' ∉ m := h.punctuation_not_mem (by simp [punctuation])
    have hclose : ']' ∉ m := h.punctuation_not_mem (by simp [punctuation])
    rw [chars, texts, List.cons_append, Text.infix_cons_iff_of_not_mem h.ne_nil hopen,
      Text.infix_append_cons_iff hclose, infix_itemsText_iff items, List.infix_nil,
      or_iff_left h.ne_nil]
  | object members =>
    have hopen : '\x7b' ∉ m := h.punctuation_not_mem (by simp [punctuation])
    have hclose : '\x7d' ∉ m := h.punctuation_not_mem (by simp [punctuation])
    rw [chars, texts, List.cons_append, Text.infix_cons_iff_of_not_mem h.ne_nil hopen,
      Text.infix_append_cons_iff hclose, infix_membersText_iff members, List.infix_nil,
      or_iff_left h.ne_nil]

theorem infix_itemsText_iff (items : List Json) :
    m <:+: itemsText items ↔ ∃ s ∈ itemsTexts items, m <:+: s.toList := by
  match items with
  | [] => simpa [itemsText, itemsTexts] using h.ne_nil
  | [v] => simpa [itemsText, itemsTexts] using infix_chars_iff v
  | v :: w :: rest =>
    have hcomma : ',' ∉ m := h.punctuation_not_mem (by simp [punctuation])
    rw [itemsText, itemsTexts, Text.infix_append_cons_iff hcomma, infix_chars_iff v,
      infix_itemsText_iff (w :: rest)]
    simp only [List.mem_append, or_and_right, exists_or]

theorem infix_membersText_iff (members : List (String × Json)) :
    m <:+: membersText members ↔ ∃ s ∈ membersTexts members, m <:+: s.toList := by
  have hcolon : ':' ∉ m := h.punctuation_not_mem (by simp [punctuation])
  match members with
  | [] => simpa [membersText, membersTexts] using h.ne_nil
  | [(k, v)] =>
    rw [membersText, membersTexts, Text.infix_append_cons_iff hcolon, infix_quoted_iff h,
      infix_chars_iff v]
    simp [membersTexts]
  | (k, v) :: n :: rest =>
    have hcomma : ',' ∉ m := h.punctuation_not_mem (by simp [punctuation])
    rw [membersText, membersTexts, List.append_assoc, List.cons_append,
      Text.infix_append_cons_iff hcolon, Text.infix_append_cons_iff hcomma, infix_quoted_iff h,
      infix_chars_iff v, infix_membersText_iff (n :: rest)]
    simp only [List.cons_append, List.mem_cons, List.mem_append, or_and_right, exists_or,
      exists_eq_left]
end

theorem infix_string_iff (s : String) : m <:+: chars (string s) ↔ m <:+: s.toList := by
  rw [infix_chars_iff h]
  simp [texts]

theorem infix_array_iff (items : List Json) :
    m <:+: chars (array items) ↔ ∃ v ∈ items, m <:+: chars v := by
  simp only [infix_chars_iff h, texts]
  induction items with
  | nil => simp [itemsTexts]
  | cons v items ih => simp [itemsTexts, or_and_right, exists_or, ih]

theorem infix_object_iff (members : List (String × Json)) :
    m <:+: chars (object members) ↔ ∃ e ∈ members, m <:+: e.1.toList ∨ m <:+: chars e.2 := by
  simp only [infix_chars_iff h, texts]
  induction members with
  | nil => simp [membersTexts]
  | cons e members ih =>
    rw [membersTexts, List.cons_append]
    simp [or_and_right, exists_or, ih, or_assoc]

end
end AgentPrompt.Json
