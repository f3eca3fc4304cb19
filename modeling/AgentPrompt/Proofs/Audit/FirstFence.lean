import AgentPrompt.Proofs.Audit.Agreement

/-! The audit reads the line after the first fence of a block, which may be one that the description
holds. -/
namespace AgentPrompt.Audit
open Json (chars)
open Text (lines)
open Tool (Resolved)

theorem schema_of_resolve {t : Tool} {parameters : List Resolved}
    (h : t.resolve = .ok parameters) :
    t.schema = .ok (String.ofList (chars (t.schemaValue parameters))) := by
  rw [Tool.schema, h]
  rfl

theorem readSchema_of_schemaLine {sectionText line : List Char}
    (h : schemaLine sectionText = .ok line) :
    readSchema sectionText =
      (Json.readText line).mapError fun fault => SchemaFault.notJson fault.message := by
  simp only [readSchema, h, bind, Except.bind]
  cases Json.readText line with
  | ok v => rfl
  | error fault => rfl

theorem FencedLine.unique {sectionText line line' : List Char} (h : FencedLine sectionText line)
    (h' : FencedLine sectionText line') : line = line' := by
  rw [← schemaLine_eq_ok_iff] at h h'
  exact Except.ok.inj (h.symm.trans h')

section
variable {t : Tool} (hname : ∀ c ∈ t.name.toList, Text.isBlank c = false)
  (parameters : List Resolved)
include hname

/-- A block is an opening that nothing was carried into. -/
theorem exists_lines_blockText :
    ∃ below, lines (t.blockText parameters) =
      headingLine t :: (lines t.descriptionText ++
        [] :: fenceLine :: chars (t.schemaValue parameters) :: below) := by
  have hstart : StartsLine [] := Or.inl rfl
  obtain ⟨below, hlines⟩ :=
    Tool.exists_lines_blockOpening hname hstart parameters (t.blockClosing parameters)
  rw [List.nil_append, ← Tool.blockText_eq] at hlines
  exact ⟨below, by simpa using hlines⟩

theorem fencedLine_of_unfenced (hfree : fenceLine ∉ lines t.descriptionText) :
    FencedLine (t.blockText parameters) (chars (t.schemaValue parameters)) := by
  obtain ⟨below, hlines⟩ := exists_lines_blockText hname parameters
  refine ⟨headingLine t :: (lines t.descriptionText ++ [[]]), below, by simp [hlines], ?_⟩
  have hne := Tool.fenceLine_ne_headingLine t
  have hnil : fenceLine ≠ [] := by decide
  simp [hne, hfree, hnil]

/-- The line after a description's own fence is the next of its lines, or else the empty line that
parts the description from the schema's fence. -/
theorem fencedLine_of_fenced {above below : List (List Char)}
    (hd : lines t.descriptionText = above ++ fenceLine :: below) (ha : fenceLine ∉ above) :
    FencedLine (t.blockText parameters) (below.headD []) := by
  obtain ⟨more, hlines⟩ := exists_lines_blockText hname parameters
  have hne := Tool.fenceLine_ne_headingLine t
  have hfirst : fenceLine ∉ headingLine t :: above := by simp [hne, ha]
  rw [hd] at hlines
  cases below with
  | nil =>
    exact ⟨headingLine t :: above, fenceLine :: chars (t.schemaValue parameters) :: more,
      by simpa using hlines, hfirst⟩
  | cons line below =>
    exact ⟨headingLine t :: above,
      below ++ [] :: fenceLine :: chars (t.schemaValue parameters) :: more,
      by simpa using hlines, hfirst⟩

theorem exists_fencedLine_blockText : ∃ line, FencedLine (t.blockText parameters) line := by
  by_cases hm : fenceLine ∈ lines t.descriptionText
  · obtain ⟨above, below, hd, ha⟩ := List.eq_append_cons_of_mem hm
    exact ⟨_, fencedLine_of_fenced hname parameters hd ha⟩
  · exact ⟨_, fencedLine_of_unfenced hname parameters hm⟩

end

/-- The line of a block that is read as JSON is the tool's schema if the description has no fence, and
otherwise the line after the description's first fence. There always is such a line. -/
theorem schemaLine_block {t : Tool} {block : String} (h : t.block = .ok block) :
    ∃ schema line, t.schema = .ok schema ∧ schemaLine block.toList = .ok line ∧
      (fenceLine ∉ lines (Text.trim t.description.toList) → line = schema.toList) ∧
      (∀ above below, lines (Text.trim t.description.toList) = above ++ fenceLine :: below →
        fenceLine ∉ above → line = below.headD []) ∧
      readSchema block.toList =
        (Json.readText line).mapError (fun fault => SchemaFault.notJson fault.message) ∧
      readSchema block.toList ≠ .error .noFence ∧ readSchema block.toList ≠ .error .emptyFence := by
  obtain ⟨parameters, hresolve, htext, -⟩ := block_eq_ok h
  have hname := (Tool.resolve_eq_ok hresolve).1
  obtain ⟨line, hline⟩ := exists_fencedLine_blockText hname parameters
  have hread : schemaLine block.toList = .ok line := by
    rw [htext]
    exact schemaLine_eq_ok_iff.2 hline
  have hschema := readSchema_of_schemaLine hread
  refine ⟨_, line, schema_of_resolve hresolve, hread, fun hfree => ?_, fun above below hd ha => ?_,
    hschema, ?_, ?_⟩
  · rw [String.toList_ofList]
    exact hline.unique (fencedLine_of_unfenced hname parameters hfree)
  · exact hline.unique (fencedLine_of_fenced hname parameters hd ha)
  · rw [hschema]
    cases Json.readText line <;> simp [Except.mapError]
  · rw [hschema]
    cases Json.readText line <;> simp [Except.mapError]

/-- A tool whose description quotes a fence, but not in a line of its own. -/
def plainTool : Tool :=
  { name := "plain", description := "about ```json\r```json" }

/-- A tool with two fences in its description, in lines that end in a carriage return. -/
def fencedTool : Tool :=
  { name := "fenced", description := " use\r\n```json\r\nx\r\n```json\r\ny" }

/-- A tool whose description ends in a fence. -/
def openTool : Tool :=
  { name := "open", description := "see\n```json  \n" }

theorem schemaLine_block_fencedTool :
    (∃ block schema, plainTool.block = .ok block ∧ plainTool.schema = .ok schema ∧
      schemaLine block.toList = .ok schema.toList) ∧
    (∃ block, fencedTool.block = .ok block ∧ schemaLine block.toList = .ok ['x']) ∧
    ∃ block, openTool.block = .ok block ∧ schemaLine block.toList = .ok [] := by
  obtain ⟨plain, hplain⟩ := Except.exists_eq_ok_of_isOk (x := plainTool.block) (by decide +kernel)
  obtain ⟨fenced, hfenced⟩ := Except.exists_eq_ok_of_isOk (x := fencedTool.block) (by decide +kernel)
  obtain ⟨last, hlast⟩ := Except.exists_eq_ok_of_isOk (x := openTool.block) (by decide +kernel)
  obtain ⟨schema, line, hschema, hline, hfree, -⟩ := schemaLine_block hplain
  obtain ⟨-, line', -, hline', -, hown', -⟩ := schemaLine_block hfenced
  obtain ⟨-, line'', -, hline'', -, hown'', -⟩ := schemaLine_block hlast
  obtain rfl := hfree (by decide +kernel)
  obtain rfl := hown' ["use".toList] ["x".toList, fenceLine, "y".toList] (by decide +kernel)
    (by decide)
  obtain rfl := hown'' ["see".toList] [] (by decide +kernel) (by decide)
  exact ⟨⟨plain, schema, hplain, hschema, hline⟩, ⟨fenced, hfenced, hline'⟩, last, hlast, hline''⟩

end AgentPrompt.Audit
