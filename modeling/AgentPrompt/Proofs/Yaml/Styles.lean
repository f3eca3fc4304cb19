import AgentPrompt.Yaml.Printer
import Mathlib.Data.Bool.AllAny
import Mathlib.Data.Char

namespace AgentPrompt.Yaml

/-- Allowed in a text, and not changed before the text is scanned. -/
def Kept (c : Char) : Prop :=
  isAllowed c ∧ c ≠ '\r' ∧ c ≠ '\u0085'

theorem kept_of_isWritable {c : Char} (h : isWritable c) : Kept c := by
  refine ⟨?_, ?_, ?_⟩
  · simp only [isWritable, isAllowed, Bool.or_eq_true, Bool.and_eq_true, decide_eq_true_eq,
      beq_iff_eq, bne_iff_ne] at h ⊢
    omega
  · rintro rfl
    exact absurd h (by decide)
  · rintro rfl
    exact absurd h (by decide)

theorem isAnyBreak_eq_of_kept {c : Char} (h : Kept c) : isAnyBreak c = isBreak c := by
  have hreturn : (c == '\r') = false := beq_eq_false_iff_ne.2 h.2.1
  have hnext : (c == '\u0085') = false := beq_eq_false_iff_ne.2 h.2.2
  rw [isAnyBreak, hreturn, hnext, Bool.or_false, Bool.or_false]

theorem isBlank_eq_of_isWritable {c : Char} (h : isWritable c) : isBlank c = (c == ' ') := by
  have htab : c ≠ '\t' := by
    rintro rfl
    exact absurd h (by decide)
  simp [isBlank, htab]

theorem kept_of_all {s : List Char} (h : s.all isWritable) : ∀ c ∈ s, Kept c :=
  fun c hc => kept_of_isWritable (List.all_eq_true.1 h c hc)

/-- What may stand in front of a line. -/
theorem kept_indentation (fresh : Bool) : ∀ d ∈ if fresh then indentation else [], Kept d := by
  cases fresh with
  | true => exact kept_of_all (by decide)
  | false => exact kept_of_all (by decide)

theorem isBreak_indentation : ∀ c ∈ indentation, isBreak c = false :=
  List.all_iff_forall_prop.1 (by decide)

/-! ## The text that is scanned -/

theorem unifyBreaks_of_kept {s : List Char} (h : ∀ c ∈ s, Kept c) : unifyBreaks s = s := by
  induction s with
  | nil => rfl
  | cons c s ih =>
    obtain ⟨⟨-, hreturn, hnext⟩, hs⟩ := List.forall_mem_cons.1 h
    have hcons : unifyBreaks (c :: s) = c :: unifyBreaks s := by
      rw [unifyBreaks]
      · simp [hreturn, hnext]
      · rintro rest rfl
        exact absurd rfl hreturn
    rw [hcons, ih hs]

theorem source_of_kept {s : List Char} (h : ∀ c ∈ s, Kept c) : source s = .ok s := by
  have hall : s.all isAllowed := List.all_eq_true.2 fun c hc => (h c hc).1
  rw [source, if_pos hall, unifyBreaks_of_kept h]

/-! ## What the style tells -/

/-- A text that keeps its characters and its end when it is written as it stands. -/
structure IsBare (s : List Char) : Prop where
  writable : ∀ c ∈ s, isWritable c
  unbroken : ∀ c ∈ s, isBreak c = false
  first : hasFirstIndicator s = false
  inner : hasInnerIndicator s = false
  head : s.head? ≠ some ' '
  last : s.getLast? ≠ some ' '

/-- A bare text that is nothing else than a text. -/
structure IsPlain (s : List Char) : Prop extends IsBare s where
  clear : isAmbiguous s = false

theorem IsPlain.ne_nil {s : List Char} (h : IsPlain s) : s ≠ [] := by
  rintro rfl
  exact absurd h.clear (by decide)

structure IsSingle (s : List Char) : Prop where
  writable : ∀ c ∈ s, isWritable c
  oneLine : '\n' ∉ s
  spaceAfterBreak : hasPair isAnyBreak isSpaceChar s = false
  spaceBeforeBreak : hasPair isSpaceChar isAnyBreak s = false

structure IsLiteral (s : List Char) : Prop where
  writable : ∀ c ∈ s, isWritable c
  lines : '\n' ∈ s

theorem writable_of_shape {s : List Char} (h : (shape s).special = false) :
    ∀ c ∈ s, isWritable c := by
  simpa [shape] using h

theorem isPlain_of_plainAllowed {s : List Char} (h : (shape s).plainAllowed)
    (hclear : isAmbiguous s = false) : IsPlain s := by
  simp only [Shape.plainAllowed, Bool.not_eq_true', Bool.or_eq_false_iff] at h
  obtain ⟨⟨⟨⟨⟨⟨hindicators, hbreaks⟩, hspecial⟩, hedge⟩, -⟩, -⟩, -⟩ := h
  have hwritable := writable_of_shape hspecial
  simp only [shape, Bool.or_eq_false_iff] at hindicators
  simp only [shape, Bool.or_eq_false_iff, decide_eq_false_iff_not] at hedge
  refine ⟨⟨hwritable, fun c hc => ?_, hindicators.1.2, hindicators.2, hedge.1, hedge.2⟩, hclear⟩
  rw [← isAnyBreak_eq_of_kept (kept_of_isWritable (hwritable c hc))]
  have hany : ∀ c ∈ s, isAnyBreak c = false := by simpa [shape] using hbreaks
  exact hany c hc

theorem isSingle_of_singleAllowed {s : List Char} (h : (shape s).singleAllowed)
    (hline : '\n' ∉ s) : IsSingle s := by
  simp only [Shape.singleAllowed, Bool.not_eq_true', Bool.or_eq_false_iff] at h
  exact ⟨writable_of_shape h.1.1, hline, h.1.2, h.2⟩

theorem styleOf_cases (s : List Char) :
    styleOf s = .plain ∧ IsPlain s ∨ styleOf s = .singleQuoted ∧ IsSingle s ∨
      styleOf s = .doubleQuoted ∨ styleOf s = .literal ∧ IsLiteral s := by
  simp only [styleOf]
  split
  · rename_i hlines
    split
    · rename_i hblock
      simp only [Shape.blockAllowed, Bool.not_eq_true', Bool.or_eq_false_iff] at hblock
      exact Or.inr (Or.inr (Or.inr ⟨rfl, writable_of_shape hblock.1.1, by simpa using hlines⟩))
    · exact Or.inr (Or.inr (Or.inl rfl))
  · rename_i hlines
    have hline : '\n' ∉ s := by simpa using hlines
    have hquoted : ∀ style, style = (if (shape s).singleAllowed then Style.singleQuoted
        else .doubleQuoted) → style = .singleQuoted ∧ IsSingle s ∨ style = .doubleQuoted := by
      rintro style rfl
      split
      · rename_i hsingle
        exact Or.inl ⟨rfl, isSingle_of_singleAllowed hsingle hline⟩
      · exact Or.inr rfl
    split
    · exact Or.inr ((hquoted _ rfl).imp_right Or.inl)
    · rename_i hclear
      split
      · rename_i hplain
        exact Or.inl ⟨rfl, isPlain_of_plainAllowed hplain (by simpa using hclear)⟩
      · exact Or.inr ((hquoted _ rfl).imp_right Or.inl)

theorem scalarText_plain {s : List Char} (h : styleOf s = .plain) :
    scalarText s = s ++ ['\n'] := by
  rw [scalarText, h]

theorem scalarText_single {s : List Char} (h : styleOf s = .singleQuoted) :
    scalarText s = '\'' :: singleText false s ++ ['\'', '\n'] := by
  rw [scalarText, h]

theorem scalarText_double {s : List Char} (h : styleOf s = .doubleQuoted) :
    scalarText s = '"' :: s.flatMap doubleChar ++ ['"', '\n'] := by
  rw [scalarText, h]

theorem scalarText_literal {s : List Char} (h : styleOf s = .literal) :
    scalarText s = '|' :: literalMarks s ++ '\n' :: literalText true s := by
  rw [scalarText, h]

end AgentPrompt.Yaml
