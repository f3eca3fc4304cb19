import AgentPrompt.Proofs.Text.Trim
import Mathlib.Data.List.Infix

/-! A text that lacks a character does not occur across that character. -/
namespace AgentPrompt.Text

variable {m a b : List Char} {c : Char}

theorem prefix_of_prefix_cons (hc : c ∉ m) (h : m <+: a ++ c :: b) : m <+: a := by
  induction a generalizing m with
  | nil =>
    cases m with
    | nil => exact List.nil_prefix
    | cons d m =>
      have he : d = c := (List.cons_prefix_cons.1 h).1
      exact absurd (he ▸ List.mem_cons_self) hc
  | cons d a ih =>
    cases m with
    | nil => exact List.nil_prefix
    | cons e m =>
      obtain ⟨rfl, hp⟩ := List.cons_prefix_cons.1 h
      have hm : c ∉ m := fun hm => hc (List.mem_cons_of_mem _ hm)
      exact List.cons_prefix_cons.2 ⟨rfl, ih hm hp⟩

/-- A text without a character does not occur across that character. -/
theorem infix_append_cons_iff (hc : c ∉ m) : m <:+: a ++ c :: b ↔ m <:+: a ∨ m <:+: b := by
  constructor
  · intro h
    induction a with
    | nil =>
      rcases List.infix_cons_iff.1 h with h | h
      · have hp : m <+: [] ++ c :: b := h
        exact Or.inl (prefix_of_prefix_cons hc hp).isInfix
      · exact Or.inr h
    | cons d a ih =>
      rcases List.infix_cons_iff.1 h with h | h
      · have hp : m <+: (d :: a) ++ c :: b := h
        exact Or.inl (prefix_of_prefix_cons hc hp).isInfix
      · exact (ih h).imp_left fun hi => hi.trans (List.suffix_cons d a).isInfix
  · rintro (h | h)
    · exact h.trans (List.prefix_append _ _).isInfix
    · exact h.trans ((List.suffix_cons c b).trans (List.suffix_append a _)).isInfix

theorem infix_cons_iff_of_not_mem (hm : m ≠ []) (hc : c ∉ m) : m <:+: c :: b ↔ m <:+: b := by
  have h := infix_append_cons_iff (a := []) (b := b) hc
  rw [List.nil_append, List.infix_nil] at h
  rw [h, or_iff_right hm]

theorem infix_append_iff_of_not_mem (hm : m ≠ []) (ha : ∀ c ∈ a, c ∉ m) :
    m <:+: a ++ b ↔ m <:+: b := by
  induction a with
  | nil => rfl
  | cons c a ih =>
    rw [List.forall_mem_cons] at ha
    rw [List.cons_append, infix_cons_iff_of_not_mem hm ha.1, ih ha.2]

theorem not_infix_of_not_mem (hm : c ∈ m) (ha : c ∉ a) : ¬ m <:+: a :=
  fun h => ha (h.subset hm)

/-- A text whose first character is missing in front begins behind it. -/
theorem infix_append_iff_of_head (hm : m.head? = some c) (ha : c ∉ a) :
    m <:+: a ++ b ↔ m <:+: b := by
  constructor
  · intro h
    induction a with
    | nil => exact h
    | cons d a ih =>
      rw [List.mem_cons, not_or] at ha
      rcases List.infix_cons_iff.1 h with h | h
      · obtain ⟨m', rfl⟩ := List.head?_eq_some_iff.1 hm
        exact absurd (List.cons_prefix_cons.1 h).1 ha.1
      · exact ih ha.2 h
  · intro h
    exact h.trans (List.suffix_append a b).isInfix

theorem infix_append_iff_of_getLast (hm : m.getLast? = some c) (hb : c ∉ b) :
    m <:+: a ++ b ↔ m <:+: a := by
  have hhead : m.reverse.head? = some c := by rw [List.head?_reverse, hm]
  have hmem : c ∉ b.reverse := by simpa using hb
  have h := infix_append_iff_of_head (b := a.reverse) hhead hmem
  rwa [← List.reverse_append, List.reverse_infix, List.reverse_infix] at h

/-- Trimming leaves every text that has no blank at its ends where it is. -/
theorem infix_trim_iff {d : Char} (hfirst : m.head? = some c) (hc : isBlank c = false)
    (hlast : m.getLast? = some d) (hd : isBlank d = false) (s : List Char) :
    m <:+: trim s ↔ m <:+: s := by
  obtain ⟨left, right, hs, hleft, hright⟩ := trim_between_blanks s
  have hcl : c ∉ left := by
    intro h
    have hblank := (isBlankText_iff left).1 hleft c h
    rw [hc] at hblank
    cases hblank
  have hdr : d ∉ right := by
    intro h
    have hblank := (isBlankText_iff right).1 hright d h
    rw [hd] at hblank
    cases hblank
  conv_rhs => rw [hs]
  rw [infix_append_iff_of_getLast hlast hdr, infix_append_iff_of_head hfirst hcl]

/-- Texts joined by a separator hold only what one of them holds, if the separator is made of
characters that do not occur in it. -/
theorem infix_intercalate_iff (hm : m ≠ []) {separator : List Char} (hne : separator ≠ [])
    (hs : ∀ c ∈ separator, c ∉ m) (texts : List (List Char)) :
    m <:+: separator.intercalate texts ↔ ∃ t ∈ texts, m <:+: t := by
  obtain ⟨c, more, rfl⟩ := List.exists_cons_of_ne_nil hne
  rw [List.forall_mem_cons] at hs
  induction texts with
  | nil => simp [hm]
  | cons t texts ih =>
    cases texts with
    | nil => simp
    | cons u texts =>
      have hmore := infix_append_iff_of_not_mem (b := (c :: more).intercalate (u :: texts)) hm hs.2
      rw [List.intercalate_cons_cons, List.append_assoc, List.cons_append, infix_append_cons_iff hs.1,
        hmore]
      simpa using or_congr_right ih

end AgentPrompt.Text
