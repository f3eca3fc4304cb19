import AgentPrompt.Proofs.Audit.Agreement
import AgentPrompt.Proofs.Audit.HeaderSearch
import AgentPrompt.Proofs.Audit.Offsets

/-! Taking the first line that is a heading is never too early: whatever lines show the other
headings in order still stand behind it. -/
namespace AgentPrompt.Audit
open Text (fullLines)

/-- No line before the place of a cut is the heading that is cut at. -/
theorem not_mem_fullLines_of_cutAt {line s before after : List Char} (hline : '\n' ∉ line)
    (hne : line ≠ []) (h : cutAt (line ++ ['\n']) 0 true s = some (before, after)) :
    line ∉ fullLines before := by
  intro hm
  obtain ⟨rfl, -⟩ := cutAt_eq_some h
  obtain ⟨front, back, rfl, hf, hfirst, -⟩ := exists_first_line hm
  -- The search would have ended at the first of these lines, which is too early.
  have hcut := cutAt_eq_of_not_mem hline hne hf hfirst (back ++ (line ++ ['\n']) ++ after)
  simp only [List.append_assoc, List.cons_append] at h hcut
  rw [hcut] at h
  obtain ⟨hfront, -⟩ := Prod.mk.inj (Option.some.inj h)
  simpa using congrArg List.length hfront

/-- The sections that are found are undisturbed: each search ended at the first heading. -/
theorem exists_undisturbed {tools : List Tool} (hnames : ∀ t ∈ tools, '\n' ∉ t.name.toList)
    {s before : List Char} {texts : List (List Char)}
    (h : sectionsAfter (tools.map header) s = some (before, texts)) :
    ∃ parts : List (Tool × List Char), parts.map Prod.fst = tools ∧
      texts = (parts.map fun p => header p.1 ++ p.2) ∧ Undisturbed before parts := by
  induction tools generalizing s before texts with
  | nil =>
    simp only [List.map_nil, sectionsAfter, Option.some.injEq, Prod.mk.injEq] at h
    exact ⟨[], rfl, h.2.symm, trivial⟩
  | cons t tools ih =>
    simp only [List.map_cons, sectionsAfter, Option.bind_eq_bind, Option.bind_eq_some_iff,
      Option.pure_def, Option.some.injEq, Prod.mk.injEq, Prod.exists] at h
    obtain ⟨front, after, hc, body, more, hs, rfl, rfl⟩ := h
    obtain ⟨ht, hmore⟩ := List.forall_mem_cons.1 hnames
    obtain ⟨parts, rfl, rfl, hrest⟩ := ih hmore hs
    obtain ⟨-, -, hstart⟩ := cutAt_eq_some hc
    rw [header_eq] at hc
    have hfirst := not_mem_fullLines_of_cutAt (newline_not_mem_headingLine ht)
      (headingLine_ne_nil t) hc
    exact ⟨(t, body) :: parts, rfl, rfl, hstart, hfirst, hrest⟩

theorem Undisturbed.sublist {before : List Char} {parts : List (Tool × List Char)}
    (hnames : ∀ p ∈ parts, '\n' ∉ p.1.name.toList) (h : Undisturbed before parts) :
    (parts.map fun p => headingLine p.1).Sublist
      (fullLines (before ++ (parts.map fun p => header p.1 ++ p.2).flatten)) := by
  induction parts generalizing before with
  | nil => exact List.nil_sublist _
  | cons p parts ih =>
    obtain ⟨t, body⟩ := p
    obtain ⟨hstart, -, hmore⟩ := h
    obtain ⟨ht, hrest⟩ := List.forall_mem_cons.1 hnames
    rw [List.map_cons, List.map_cons, List.flatten_cons, fullLines_append_of_startsLine hstart,
      header_eq, List.append_assoc, List.append_assoc, List.singleton_append,
      Text.fullLines_line_append (newline_not_mem_headingLine ht)]
    exact List.sublist_append_of_sublist_right (List.cons_sublist_cons.2 (ih hrest hmore))

/-- A text with sections is what stands before the first of them and the sections, undisturbed. -/
theorem exists_parts_of_sections {tools : List Tool} (hnames : ∀ t ∈ tools, '\n' ∉ t.name.toList)
    {s : List Char} {texts : List (List Char)} (h : sections s tools = some texts) :
    ∃ (before : List Char) (parts : List (Tool × List Char)), parts.map Prod.fst = tools ∧
      texts = (parts.map fun p => header p.1 ++ p.2) ∧ s = before ++ texts.flatten ∧
      Undisturbed before parts := by
  obtain ⟨⟨before, texts'⟩, hs, rfl⟩ := Option.map_eq_some_iff.1 h
  obtain ⟨parts, hparts, htexts, hu⟩ := exists_undisturbed hnames hs
  obtain ⟨he, -⟩ := sectionsAfter_eq_some (Or.inl rfl : StartsLine []) hs
  exact ⟨before, parts, hparts, htexts, he, hu⟩

section
variable (s : List Char) (tools : List Tool)

theorem exists_sections_iff_sublist (hnames : ∀ t ∈ tools, '\n' ∉ t.name.toList) :
    (∃ texts, sections s tools = some texts) ↔
      (tools.map headingLine).Sublist (fullLines s) := by
  constructor
  · rintro ⟨texts, h⟩
    obtain ⟨before, parts, rfl, rfl, rfl, hu⟩ := exists_parts_of_sections hnames h
    have hparts : ∀ p ∈ parts, '\n' ∉ p.1.name.toList := fun p hp =>
      hnames p.1 (List.mem_map_of_mem hp)
    rw [List.map_map]
    exact hu.sublist hparts
  · intro h
    obtain ⟨⟨before, texts⟩, hs⟩ := exists_sectionsAfter hnames h
    exact ⟨texts, by rw [sections, hs, Option.map_some]⟩

/-- A report has one check of the order. It looks only for the sections, unless no tool is
expected. -/
theorem filter_toolOrder (hne : tools ≠ []) :
    (auditTools s tools).filter (fun c => c.topic = .toolOrder) =
      [⟨.toolOrder, if (sections s tools).isSome then [] else [.headersMissing]⟩] := by
  have hempty : tools.isEmpty = false := by simpa using hne
  rw [auditTools]
  cases sections s tools with
  | none => rfl
  | some texts => simp [hempty, markupCheck]

end

/-- The check of the order passes exactly if the headings are a subsequence of the full lines. Then
each section starts with the heading of its tool, at the first line behind the section's predecessor
that shows it, and the sections make up the text from the first of these lines on. Done by byte
offsets, the search takes no slice that is out of range or begins or ends inside a character. -/
theorem toolOrder_passed_iff_sublist (s : List Char) {tools : List Tool} (hne : tools ≠ [])
    (hnames : ∀ t ∈ tools, ∀ c ∈ t.name.toList, Text.isBlank c = false) :
    (∃ check, (auditTools s tools).filter (fun c => c.topic = .toolOrder) = [check] ∧
      (check.passed ↔ (tools.map headingLine).Sublist (fullLines s))) ∧
    ((tools.map headingLine).Sublist (fullLines s) →
      ∃ (before : List Char) (parts : List (Tool × List Char)), parts.map Prod.fst = tools ∧
        sections s tools = some (parts.map fun p => header p.1 ++ p.2) ∧
        s = before ++ (parts.map fun p => header p.1 ++ p.2).flatten ∧
        Undisturbed before parts) ∧
    sectionsByOffset s (tools.map header) = .ok (sections s tools) := by
  have hlines : ∀ t ∈ tools, '\n' ∉ t.name.toList := fun t ht =>
    Tool.newline_not_mem_name (hnames t ht)
  refine ⟨⟨_, filter_toolOrder s tools hne, ?_⟩, fun h => ?_, sectionsByOffset_eq s tools⟩
  · rw [← exists_sections_iff_sublist s tools hlines, ← Option.isSome_iff_exists]
    cases (sections s tools).isSome <;> simp [Check.passed]
  · obtain ⟨texts, hs⟩ := (exists_sections_iff_sublist s tools hlines).2 h
    obtain ⟨before, parts, hparts, rfl, he, hu⟩ := exists_parts_of_sections hlines hs
    exact ⟨before, parts, hparts, hs, he, hu⟩

/-- Tools of which one comes twice and one has a name that begins with the other's. -/
def readers : List Tool :=
  [{ name := "read" }, { name := "readAll" }, { name := "read" }]

/-- Headings out of turn, inside lines and behind a character of two bytes. -/
def readersText : List Char :=
  "## readAll\né ## read\n## read\n## read\n## readAll\n## read ## read\n## read\nend".toList

theorem toolOrder_passed_iff_sublist_readers :
    readers ≠ [] ∧ (∀ t ∈ readers, ∀ c ∈ t.name.toList, Text.isBlank c = false) ∧
      (∃ check, (auditTools readersText readers).filter (fun c => c.topic = .toolOrder) = [check] ∧
        check.passed) ∧
      ∃ texts, sectionsByOffset readersText (readers.map header) = .ok (some texts) ∧
        texts.length = 3 := by
  have hne : readers ≠ [] := by decide
  have hnames : ∀ t ∈ readers, ∀ c ∈ t.name.toList, Text.isBlank c = false := by
    simp [readers, Text.isBlank]
  have hsub : (readers.map headingLine).Sublist (fullLines readersText) := by decide +kernel
  obtain ⟨⟨check, hone, hpassed⟩, hsections, hoffsets⟩ :=
    toolOrder_passed_iff_sublist readersText hne hnames
  obtain ⟨before, parts, hparts, hs, -⟩ := hsections hsub
  refine ⟨hne, hnames, ⟨check, hone, hpassed.2 hsub⟩, _, hoffsets.trans (congrArg _ hs), ?_⟩
  rw [List.length_map, ← List.length_map Prod.fst, hparts]
  rfl

end AgentPrompt.Audit
