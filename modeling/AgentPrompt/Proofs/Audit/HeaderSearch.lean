import AgentPrompt.Proofs.Audit.Soundness
import AgentPrompt.Proofs.Text.Lines

/-! An occurrence of a header inside a line ends where that line ends, so the search finds exactly
the first line that is the heading. -/
namespace AgentPrompt.Audit
open Text (fullLines)

def headingLine (t : Tool) : List Char :=
  "## ".toList ++ t.name.toList

theorem header_eq (t : Tool) : header t = headingLine t ++ ['\n'] :=
  rfl

theorem headingLine_ne_nil (t : Tool) : headingLine t ≠ [] := by
  simp [headingLine]

theorem newline_not_mem_headingLine {t : Tool} (h : '\n' ∉ t.name.toList) :
    '\n' ∉ headingLine t := by
  simp [headingLine, h]

/-! ## One header -/

theorem isPrefixOf_line_iff {line l : List Char} (hline : '\n' ∉ line) (hl : '\n' ∉ l)
    (s : List Char) : (line ++ ['\n']).isPrefixOf (l ++ '\n' :: s) ↔ l = line := by
  induction line generalizing l with
  | nil =>
    cases l with
    | nil => simp
    | cons d l => simp_all
  | cons c line ih =>
    simp only [List.mem_cons, not_or] at hline
    cases l with
    | nil => simp [Ne.symm hline.1]
    | cons d l =>
      simp only [List.mem_cons, not_or] at hl
      rw [List.cons_append, List.cons_append, List.isPrefixOf_cons_cons, Bool.and_eq_true, beq_iff_eq,
        ih hline.2 hl.2, List.cons.injEq, eq_comm]

/-- A line that is not the one looked for is passed over to its end, also from within. -/
theorem cutAt_line {line l : List Char} (hline : '\n' ∉ line) (hne : line ≠ []) (hl : '\n' ∉ l)
    {skip : Nat} (hskip : skip ≤ l.length + 1) {fresh : Bool} (h : fresh = true → l ≠ line)
    (s : List Char) :
    cutAt (line ++ ['\n']) skip fresh (l ++ '\n' :: s) =
      (cutAt (line ++ ['\n']) 0 true s).map fun p => (l ++ '\n' :: p.1, p.2) := by
  induction l generalizing skip fresh with
  | nil =>
    have hp : (line ++ ['\n']).isPrefixOf ('\n' :: s) = false := by
      rw [Bool.eq_false_iff, ne_eq, ← List.nil_append ('\n' :: s), isPrefixOf_line_iff hline hl]
      exact Ne.symm hne
    match skip with
    | 0 => simp [cutAt, hp]
    | 1 => simp [cutAt]
    | skip + 2 => simp at hskip
  | cons c l ih =>
    have hl' : '\n' ∉ l := fun hm => hl (List.mem_cons_of_mem _ hm)
    have hc : (c == '\n') = false := by
      rw [beq_eq_false_iff_ne]
      exact fun he => hl (he ▸ List.mem_cons_self)
    have later : ∀ k ≤ l.length + 1,
        (cutAt (line ++ ['\n']) k (c == '\n') (l ++ '\n' :: s)).map (fun p => (c :: p.1, p.2)) =
          (cutAt (line ++ ['\n']) 0 true s).map fun p => (c :: l ++ '\n' :: p.1, p.2) := by
      intro k hk
      rw [hc, ih hl' hk (by simp), Option.map_map]
      rfl
    cases skip with
    | succ skip => exact later skip (by simpa using hskip)
    | zero =>
      simp only [List.cons_append, cutAt]
      split
      · rename_i hp
        have he := (isPrefixOf_line_iff hline hl s).1 hp
        split
        · rename_i hfresh
          exact absurd he (h hfresh)
        · apply later
          rw [← he]
          simp
      · exact later 0 (by omega)

theorem cutAt_header (line s : List Char) :
    cutAt (line ++ ['\n']) 0 true (line ++ '\n' :: s) = some ([], s) := by
  have hs : line ++ '\n' :: s = (line ++ ['\n']) ++ s := by simp
  have hp : (line ++ ['\n']).isPrefixOf ((line ++ ['\n']) ++ s) = true :=
    List.isPrefixOf_iff_prefix.2 (List.prefix_append _ _)
  have hd : ((line ++ ['\n']) ++ s).drop (line ++ ['\n']).length = s := List.drop_left
  rw [hs]
  cases h : (line ++ ['\n']) ++ s with
  | nil => simp at h
  | cons c rest =>
    rw [h] at hp hd
    simp only [cutAt, hp, if_true, hd]

theorem StartsLine.of_append {l s : List Char} (h : StartsLine (l ++ '\n' :: s)) :
    StartsLine s := by
  rcases h with h | h
  · simp at h
  · cases s with
    | nil => exact Or.inl rfl
    | cons c s =>
      right
      simpa [List.getLast?_append, List.getLast?_cons] using h

theorem startsLine_line_append (l : List Char) {s : List Char} (h : StartsLine s) :
    StartsLine (l ++ '\n' :: s) := by
  rw [← List.singleton_append, ← List.append_assoc]
  exact StartsLine.append (Or.inr (by simp)) h

theorem StartsLine.eq_nil {s : List Char} (h : StartsLine s) (hn : '\n' ∉ s) : s = [] := by
  rcases h with h | h
  · exact h
  · exact absurd (List.mem_of_getLast? h) hn

theorem fullLines_append_of_startsLine {a : List Char} (h : StartsLine a) (s : List Char) :
    fullLines (a ++ s) = fullLines a ++ fullLines s := by
  induction a using Text.lines_induction with
  | unfinished l hl =>
    obtain rfl := h.eq_nil hl
    simp
  | line l a hl ih =>
    rw [List.append_assoc, List.cons_append, Text.fullLines_line_append hl, ih h.of_append,
      Text.fullLines_line_append hl, List.cons_append]

theorem lines_append_of_startsLine {a : List Char} (h : StartsLine a) (s : List Char) :
    Text.lines (a ++ s) = (fullLines a).map Text.dropReturn ++ Text.lines s := by
  induction a using Text.lines_induction with
  | unfinished l hl =>
    obtain rfl := h.eq_nil hl
    simp
  | line l a hl ih =>
    rw [List.append_assoc, List.cons_append, Text.lines_line_append hl, ih h.of_append,
      Text.fullLines_line_append hl, List.map_cons, List.cons_append]

/-- The search ends at the first full line that is the heading. -/
theorem cutAt_eq_of_not_mem {line before : List Char} (hline : '\n' ∉ line) (hne : line ≠ [])
    (hb : StartsLine before) (hf : line ∉ fullLines before) (after : List Char) :
    cutAt (line ++ ['\n']) 0 true (before ++ (line ++ '\n' :: after)) = some (before, after) := by
  induction before using Text.lines_induction with
  | unfinished l hl =>
    obtain rfl := hb.eq_nil hl
    exact cutAt_header line after
  | line l s hl ih =>
    rw [Text.fullLines_line_append hl, List.mem_cons, not_or] at hf
    have hskip : 0 ≤ l.length + 1 := Nat.zero_le _
    have hs := ih hb.of_append hf.2
    rw [List.append_assoc, List.cons_append,
      cutAt_line hline hne hl hskip (fun _ => Ne.symm hf.1), hs]
    rfl

/-- A text around the first of its full lines that is the given one. -/
theorem exists_first_line {line s : List Char} (h : line ∈ fullLines s) :
    ∃ before after, s = before ++ (line ++ '\n' :: after) ∧ StartsLine before ∧
      line ∉ fullLines before ∧ fullLines s = fullLines before ++ line :: fullLines after := by
  induction s using Text.lines_induction with
  | unfinished l hl => simp [Text.fullLines_of_not_mem hl] at h
  | line l s hl ih =>
    rw [Text.fullLines_line_append hl]
    rcases Classical.em (l = line) with rfl | hne
    · exact ⟨[], s, rfl, Or.inl rfl, by simp, by simp⟩
    · rw [Text.fullLines_line_append hl, List.mem_cons] at h
      have hm : line ∈ fullLines s := h.resolve_left (Ne.symm hne)
      obtain ⟨before, after, hs, hb, hf, hlines⟩ := ih hm
      refine ⟨l ++ '\n' :: before, after, by simp [hs], startsLine_line_append l hb, ?_, ?_⟩
      · rw [Text.fullLines_line_append hl, List.mem_cons, not_or]
        exact ⟨Ne.symm hne, hf⟩
      · rw [Text.fullLines_line_append hl, hlines, List.cons_append]

/-! ## All headers -/

theorem sublist_of_cons_sublist_append {α : Type} {a : α} {l before after : List α}
    (h : (a :: l).Sublist (before ++ a :: after)) (ha : a ∉ before) : l.Sublist after := by
  induction before with
  | nil => exact List.cons_sublist_cons.1 h
  | cons b before ih =>
    simp only [List.mem_cons, not_or] at ha
    cases h with
    | cons _ h => exact ih h ha.2
    | cons_cons _ h => exact absurd rfl ha.1

/-- Sections are found wherever the headings stand among the full lines, in order. -/
theorem exists_sectionsAfter {tools : List Tool} (hnames : ∀ t ∈ tools, '\n' ∉ t.name.toList)
    {s : List Char} (h : (tools.map headingLine).Sublist (fullLines s)) :
    ∃ r, sectionsAfter (tools.map header) s = some r := by
  induction tools generalizing s with
  | nil => exact ⟨_, rfl⟩
  | cons t tools ih =>
    rw [List.map_cons] at h
    have hm : headingLine t ∈ fullLines s := h.subset List.mem_cons_self
    obtain ⟨before, after, rfl, hb, hf, hlines⟩ := exists_first_line hm
    rw [hlines] at h
    have hrest := sublist_of_cons_sublist_append h hf
    obtain ⟨r, hr⟩ := ih (fun u hu => hnames u (List.mem_cons_of_mem _ hu)) hrest
    have hline := newline_not_mem_headingLine (hnames t List.mem_cons_self)
    have hcut := cutAt_eq_of_not_mem hline (headingLine_ne_nil t) hb hf after
    rw [← header_eq] at hcut
    simp [sectionsAfter, hcut, hr]

/-- `Undisturbed before parts` says that each text, the first being `before`, ends in a line feed and
has no line like the heading after it. -/
def Undisturbed : List Char → List (Tool × List Char) → Prop
  | _, [] => True
  | before, (t, body) :: parts =>
    StartsLine before ∧ headingLine t ∉ fullLines before ∧ Undisturbed body parts

/-- The sections of undisturbed parts are these parts. -/
theorem sectionsAfter_undisturbed {before : List Char} {parts : List (Tool × List Char)}
    (hnames : ∀ p ∈ parts, '\n' ∉ p.1.name.toList) (h : Undisturbed before parts) :
    sectionsAfter (parts.map fun p => header p.1)
      (before ++ parts.flatMap fun p => header p.1 ++ p.2) =
        some (before, parts.map fun p => header p.1 ++ p.2) := by
  induction parts generalizing before with
  | nil => simp [sectionsAfter]
  | cons p parts ih =>
    obtain ⟨t, body⟩ := p
    obtain ⟨hb, hf, hmore⟩ := h
    have hrest := ih (fun q hq => hnames q (List.mem_cons_of_mem _ hq)) hmore
    have hline := newline_not_mem_headingLine (hnames (t, body) List.mem_cons_self)
    have hcut := cutAt_eq_of_not_mem hline (headingLine_ne_nil t) hb hf
      (body ++ parts.flatMap fun p => header p.1 ++ p.2)
    have htext : before ++ (header t ++ body ++ parts.flatMap fun p => header p.1 ++ p.2) =
        before ++ (headingLine t ++ '\n' :: (body ++ parts.flatMap fun p => header p.1 ++ p.2)) := by
      simp [header_eq]
    rw [← header_eq, ← htext] at hcut
    simp only [List.map_cons, List.flatMap_cons, sectionsAfter, hcut, hrest, Option.bind_eq_bind,
      Option.bind_some, Option.pure_def]

end AgentPrompt.Audit
