import AgentPrompt.Text.Lines

/-! Two views of the lines of a text. The reader's lines lose their endings and a carriage return;
the full lines are those that a line feed ends, as they stand. -/
namespace AgentPrompt.Text

theorem dropReturn_eq_self {line : List Char} (h : line.getLast? ≠ some '\r') :
    dropReturn line = line := by
  simp [dropReturn, h]

theorem linesFrom_append_line {l : List Char} (h : '\n' ∉ l) (start s : List Char) :
    linesFrom start (l ++ '\n' :: s) = dropReturn (start.reverse ++ l) :: linesFrom [] s := by
  induction l generalizing start with
  | nil => simp [linesFrom]
  | cons c l ih =>
    have hc : c ≠ '\n' := fun he => h (he ▸ List.mem_cons_self)
    have hl : '\n' ∉ l := fun hm => h (List.mem_cons_of_mem _ hm)
    simp [linesFrom, ih hl]

/-- A text whose first line is given. -/
theorem lines_line_append {l : List Char} (h : '\n' ∉ l) (s : List Char) :
    lines (l ++ '\n' :: s) = dropReturn l :: lines s := by
  simpa [lines] using linesFrom_append_line h [] s

theorem lines_newline (s : List Char) : lines ('\n' :: s) = [] :: lines s := by
  have h : '\n' ∉ ([] : List Char) := by simp
  simpa [dropReturn] using lines_line_append h s

theorem linesFrom_append (start a s : List Char) :
    linesFrom start (a ++ '\n' :: s) = linesFrom start (a ++ ['\n']) ++ lines s := by
  induction a generalizing start with
  | nil => simp [linesFrom, lines]
  | cons c a ih =>
    by_cases hc : c = '\n'
    · simp [linesFrom, hc, ih]
    · simp [linesFrom, ih]

/-- Lines never cross a line feed. -/
theorem lines_append (a s : List Char) :
    lines (a ++ '\n' :: s) = lines (a ++ ['\n']) ++ lines s :=
  linesFrom_append [] a s

theorem linesFrom_concat {start a : List Char} {c : Char}
    (h : (start.reverse ++ a).getLast? = some c) (hr : c ≠ '\r') (hn : a.getLast? ≠ some '\n') :
    linesFrom start (a ++ ['\n']) = linesFrom start a := by
  induction a generalizing start with
  | nil =>
    rw [List.append_nil] at h
    have hs : start ≠ [] := by
      rintro rfl
      simp at h
    have hd : dropReturn start.reverse = start.reverse := dropReturn_eq_self (by simp [h, hr])
    simp [linesFrom, hd, hs]
  | cons d a ih =>
    by_cases hd : d = '\n'
    · subst hd
      have ha : a ≠ [] := by
        rintro rfl
        simp at hn
      obtain ⟨e, a, rfl⟩ := List.exists_cons_of_ne_nil ha
      have hl : (([] : List Char).reverse ++ e :: a).getLast? = some c := by
        simpa [List.getLast?_append, List.getLast?_cons] using h
      have hn : (e :: a).getLast? ≠ some '\n' := by simpa [List.getLast?_cons] using hn
      rw [List.cons_append, linesFrom, linesFrom, ih hl hn]
    · have hl : ((d :: start).reverse ++ a).getLast? = some c := by simpa using h
      have hn : a.getLast? ≠ some '\n' := by
        intro ha
        exact hn (by simp [List.getLast?_cons, ha])
      simp [linesFrom, ih hl hn]

/-- A text whose last character ends no line has the same lines with a line feed after it. -/
theorem lines_concat {a : List Char} {c : Char} (h : a.getLast? = some c) (hr : c ≠ '\r')
    (hn : c ≠ '\n') : lines (a ++ ['\n']) = lines a := by
  have hl : (([] : List Char).reverse ++ a).getLast? = some c := by simpa using h
  apply linesFrom_concat hl hr
  rw [h]
  simpa using hn

/-! ## Full lines -/

def fullLines (s : List Char) : List (List Char) :=
  (s.splitOn '\n').dropLast

theorem fullLines_of_not_mem {s : List Char} (h : '\n' ∉ s) : fullLines s = [] := by
  simp [fullLines, List.splitOn_eq_singleton h]

@[simp] theorem fullLines_nil : fullLines [] = [] :=
  fullLines_of_not_mem (by simp)

theorem fullLines_line_append {l : List Char} (h : '\n' ∉ l) (s : List Char) :
    fullLines (l ++ '\n' :: s) = l :: fullLines s := by
  rw [fullLines, List.splitOn_append_cons_self_of_not_mem h, fullLines,
    List.dropLast_cons_of_ne_nil (List.splitOn_ne_nil _ _)]

/-- All pieces before a line feed are full lines. -/
theorem fullLines_append (a s : List Char) :
    fullLines (a ++ '\n' :: s) = a.splitOn '\n' ++ fullLines s := by
  rw [fullLines, List.splitOn_append_cons_self, fullLines,
    List.dropLast_append_of_ne_nil (List.splitOn_ne_nil _ _)]

theorem fullLines_newline (s : List Char) : fullLines ('\n' :: s) = [] :: fullLines s := by
  have h : '\n' ∉ ([] : List Char) := by simp
  simpa using fullLines_line_append h s

/-- To prove something of every text, prove it of unfinished lines and put full lines before. -/
@[elab_as_elim]
theorem lines_induction {motive : List Char → Prop} (s : List Char)
    (unfinished : ∀ l, '\n' ∉ l → motive l)
    (line : ∀ l s, '\n' ∉ l → motive s → motive (l ++ '\n' :: s)) : motive s := by
  by_cases h : '\n' ∈ s
  · obtain ⟨l, rest, hs, hl⟩ := List.eq_append_cons_of_mem h
    have hlen : rest.length < s.length := by
      rw [hs, List.length_append, List.length_cons]
      omega
    rw [hs]
    exact line l rest hl (lines_induction rest unfinished line)
  · exact unfinished s h
termination_by s.length

end AgentPrompt.Text
