import AgentPrompt.Text.Blank

namespace AgentPrompt.Text

theorem isBlankText_iff (s : List Char) : isBlankText s ↔ ∀ c ∈ s, isBlank c := by
  simp [isBlankText]

theorem isBlankText_reverse (s : List Char) : isBlankText s.reverse = isBlankText s := by
  simp [isBlankText]

theorem takeWhile_isBlank_blank (s : List Char) : isBlankText (s.takeWhile isBlank) :=
  List.all_takeWhile

theorem trimRight_append_blank (s : List Char) :
    ∃ right, s = trimRight s ++ right ∧ isBlankText right := by
  refine ⟨(s.reverse.takeWhile isBlank).reverse, ?_, ?_⟩
  · rw [trimRight, ← List.reverse_append, List.takeWhile_append_dropWhile, List.reverse_reverse]
  · rw [isBlankText_reverse]
    exact takeWhile_isBlank_blank _

/-- What trimming takes away is blank. -/
theorem trim_between_blanks (s : List Char) :
    ∃ left right, s = left ++ trim s ++ right ∧ isBlankText left ∧ isBlankText right := by
  obtain ⟨right, hs, hr⟩ := trimRight_append_blank (trimLeft s)
  refine ⟨s.takeWhile isBlank, right, ?_, takeWhile_isBlank_blank s, hr⟩
  have h : s = s.takeWhile isBlank ++ trimLeft s := List.takeWhile_append_dropWhile.symm
  rw [List.append_assoc, trim, ← hs]
  exact h

theorem trimLeft_blank_append {left : List Char} (h : isBlankText left) (s : List Char) :
    trimLeft (left ++ s) = trimLeft s :=
  List.dropWhile_append_of_pos ((isBlankText_iff left).1 h)

theorem trimRight_append_of_blank {right : List Char} (h : isBlankText right) (s : List Char) :
    trimRight (s ++ right) = trimRight s := by
  rw [trimRight, List.reverse_append, ← trimLeft, trimLeft_blank_append]
  · rfl
  · rwa [isBlankText_reverse]

theorem trimLeft_of_head_not_blank {c : Char} (h : isBlank c = false) (s : List Char) :
    trimLeft (c :: s) = c :: s := by
  simp [trimLeft, h]

/-- A text without any blank is left alone. -/
theorem trim_of_no_blank {s : List Char} (h : ∀ c ∈ s, isBlank c = false) : trim s = s := by
  have hl : ∀ t : List Char, (∀ c ∈ t, isBlank c = false) → trimLeft t = t := by
    intro t ht
    cases t with
    | nil => rfl
    | cons c t => exact trimLeft_of_head_not_blank (ht c (by simp)) t
  have hr : trimLeft s.reverse = s.reverse := hl _ fun c hc => h c (by simpa using hc)
  rw [trim, hl s h, trimRight, ← trimLeft, hr, List.reverse_reverse]

/-- Blanks around a text without any are trimmed. -/
theorem trim_blank_append_blank {left s right : List Char} (hl : isBlankText left)
    (hs : ∀ c ∈ s, isBlank c = false) (hr : isBlankText right) :
    trim (left ++ s ++ right) = s := by
  rw [List.append_assoc, trim, trimLeft_blank_append hl]
  cases s with
  | nil =>
    rw [List.nil_append, (trimLeft_eq_nil_iff right).2 hr]
    rfl
  | cons c s =>
    have hc : isBlank c = false := hs c (by simp)
    have h : trimRight (trimLeft (c :: s)) = c :: s := trim_of_no_blank hs
    rw [trimLeft_of_head_not_blank hc] at h
    rw [List.cons_append, trimLeft_of_head_not_blank hc, ← List.cons_append,
      trimRight_append_of_blank hr, h]

theorem trim_eq_nil_iff (s : List Char) : trim s = [] ↔ isBlankText s := by
  constructor
  · intro h
    obtain ⟨left, right, hs, hl, hr⟩ := trim_between_blanks s
    rw [h, List.append_nil] at hs
    rw [isBlankText_iff] at hl hr ⊢
    rw [hs]
    exact List.forall_mem_append.2 ⟨hl, hr⟩
  · intro h
    rw [trim, (trimLeft_eq_nil_iff s).2 h]
    rfl

/-- The first character of a trimmed text is not blank. -/
theorem head_trim_not_blank {s : List Char} {c : Char} (h : (trim s).head? = some c) :
    isBlank c = false := by
  obtain ⟨t, ht⟩ := List.head?_eq_some_iff.1 h
  obtain ⟨right, hs, -⟩ := trimRight_append_blank (trimLeft s)
  rw [trim] at ht
  rw [ht] at hs
  exact head_trimLeft_not_blank (s := s) hs

/-- The last character of a trimmed text is not blank. -/
theorem getLast_trim_not_blank {s : List Char} {c : Char} (h : (trim s).getLast? = some c) :
    isBlank c = false := by
  rw [trim, trimRight, List.getLast?_reverse] at h
  obtain ⟨t, ht⟩ := List.head?_eq_some_iff.1 h
  exact head_trimLeft_not_blank (s := (trimLeft s).reverse) ht

end AgentPrompt.Text
