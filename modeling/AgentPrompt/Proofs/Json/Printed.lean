import AgentPrompt.Proofs.Json.NumberText
import Mathlib.Data.Bool.AllAny

/-! The text of a value is one line: every character in it can be printed. -/
namespace AgentPrompt.Json

def NotControl (s : List Char) : Prop :=
  ∀ c ∈ s, 0x20 ≤ c.toNat

theorem notControl_nil : NotControl [] := by
  simp [NotControl]

theorem notControl_cons {c : Char} {s : List Char} :
    NotControl (c :: s) ↔ 0x20 ≤ c.toNat ∧ NotControl s := by
  simp [NotControl]

theorem notControl_append {s t : List Char} :
    NotControl (s ++ t) ↔ NotControl s ∧ NotControl t := by
  simp [NotControl, or_imp, forall_and]

theorem NotControl.not_mem {s : List Char} (h : NotControl s) {c : Char} (hc : c.toNat < 0x20) :
    c ∉ s := by
  intro hm
  have hle := h c hm
  omega

/-! ## Numbers -/

def IsNumeric (c : Char) : Prop :=
  c.isDigit = true ∨ c ∈ ['-', '+', '.', 'e']

theorem AllDigits.isNumeric {ds : List Char} (h : AllDigits ds) : ∀ c ∈ ds, IsNumeric c :=
  fun c hc => Or.inl (h c hc)

theorem isNumeric_fractionText {ds : List Char} (h : AllDigits ds) :
    ∀ c ∈ fractionText ds, IsNumeric c := by
  cases ds with
  | nil => simp [fractionText]
  | cons d ds => exact List.forall_mem_cons.2 ⟨Or.inr (by simp), h.isNumeric⟩

theorem isNumeric_powerText (power : Option Int) : ∀ c ∈ powerText power, IsNumeric c := by
  cases power with
  | none => simp [powerText]
  | some e =>
    have hsign : IsNumeric (if e < 0 then '-' else '+') := by
      split <;> exact Or.inr (by simp)
    exact List.forall_mem_cons.2
      ⟨Or.inr (by simp), List.forall_mem_cons.2 ⟨hsign, (allDigits_digitText _).isNumeric⟩⟩

theorem isNumeric_number (n : Number) : ∀ c ∈ n.text, IsNumeric c := by
  have hw := wellFormed_numeral n
  intro c hc
  rw [numeral_text, Numeral.text, List.mem_append, List.mem_append, List.mem_append] at hc
  rcases hc with hc | (hc | hc) | hc
  · split at hc
    · obtain rfl := List.mem_singleton.1 hc
      exact Or.inr List.mem_cons_self
    · cases hc
  · exact hw.whole.digits.isNumeric c hc
  · exact isNumeric_fractionText hw.fraction c hc
  · exact isNumeric_powerText _ c hc

theorem IsNumeric.not_control {c : Char} (h : IsNumeric c) : 0x20 ≤ c.toNat := by
  rcases h with h | h
  · simp only [Char.isDigit, Bool.and_eq_true, decide_eq_true_eq] at h
    have hle : 48 ≤ c.val.toNat := h.1
    have hn : c.toNat = c.val.toNat := rfl
    omega
  · have hall : ∀ c ∈ ['-', '+', '.', 'e'], 0x20 ≤ c.toNat := List.all_iff_forall_prop.1 (by decide)
    exact hall c h

theorem notControl_number (n : Number) : NotControl n.text :=
  fun c hc => (isNumeric_number n c hc).not_control

/-! ## Strings -/

theorem hexDigit_notControl {n : Nat} (h : n < 16) : 0x20 ≤ (hexDigit n).toNat := by
  have hall : ∀ k < 16, 0x20 ≤ (hexDigit k).toNat := by decide
  exact hall n h

theorem notControl_escape (c : Char) : NotControl (escape c) := by
  unfold escape
  split
  · simp [NotControl]
  · split
    · simp [NotControl]
    · split
      · rename_i hlt
        split
        · simp [NotControl]
        · simp [NotControl]
        · simp [NotControl]
        · simp [NotControl]
        · simp [NotControl]
        · have hhigh := hexDigit_notControl (show c.toNat / 16 < 16 by omega)
          have hlow := hexDigit_notControl (show c.toNat % 16 < 16 by omega)
          simpa [NotControl] using ⟨hhigh, hlow⟩
      · rename_i hlt
        simpa [NotControl] using hlt

theorem notControl_quoted (s : List Char) : NotControl (quoted s) := by
  refine notControl_cons.2 ⟨by decide, notControl_append.2 ⟨?_, by simp [NotControl]⟩⟩
  intro c hc
  obtain ⟨d, -, hd⟩ := List.mem_flatMap.1 hc
  exact notControl_escape d c hd

/-! ## Values -/

mutual
/-- A value's text has no control character, and so no line break. -/
theorem notControl_chars (v : Json) : NotControl (chars v) := by
  match v with
  | null => simp [chars, NotControl]
  | bool true => simp [chars, NotControl]
  | bool false => simp [chars, NotControl]
  | number n => exact notControl_number n
  | string s => exact notControl_quoted _
  | array items =>
    exact notControl_cons.2
      ⟨by decide, notControl_append.2 ⟨notControl_itemsText items, by simp [NotControl]⟩⟩
  | object members =>
    exact notControl_cons.2
      ⟨by decide, notControl_append.2 ⟨notControl_membersText members, by simp [NotControl]⟩⟩

theorem notControl_itemsText (items : List Json) : NotControl (itemsText items) := by
  match items with
  | [] => exact notControl_nil
  | [v] => exact notControl_chars v
  | v :: w :: items =>
    exact notControl_append.2
      ⟨notControl_chars v, notControl_cons.2 ⟨by decide, notControl_itemsText (w :: items)⟩⟩

theorem notControl_membersText (members : List (String × Json)) :
    NotControl (membersText members) := by
  match members with
  | [] => exact notControl_nil
  | [(k, v)] =>
    exact notControl_append.2
      ⟨notControl_quoted _, notControl_cons.2 ⟨by decide, notControl_chars v⟩⟩
  | (k, v) :: m :: members =>
    have hmore := notControl_membersText (m :: members)
    refine notControl_append.2 ⟨notControl_append.2 ⟨notControl_quoted _, ?_⟩, ?_⟩
    · exact notControl_cons.2 ⟨by decide, notControl_chars v⟩
    · exact notControl_cons.2 ⟨by decide, hmore⟩
end

theorem newline_not_mem_chars (v : Json) : '\n' ∉ chars v :=
  (notControl_chars v).not_mem (by decide)

theorem return_not_mem_chars (v : Json) : '\r' ∉ chars v :=
  (notControl_chars v).not_mem (by decide)

end AgentPrompt.Json
