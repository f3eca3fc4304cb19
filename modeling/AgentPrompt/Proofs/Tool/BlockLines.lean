import AgentPrompt.Proofs.Audit.HeaderSearch
import AgentPrompt.Proofs.Text.Trim
import AgentPrompt.Proofs.Tool.Schema
import AgentPrompt.Tool.Block

/-! A heading inside a block is a line of the description or of the written example, since none of
the fixed lines is one. -/
namespace AgentPrompt.Tool
open Audit (headingLine header fenceLine StartsLine)
open Json (chars)
open Text (fullLines lines)

def descriptionText (t : Tool) : List Char :=
  Text.trim t.description.toList

theorem blockSeparator_toList : blockSeparator.toList = ['\n', '\n'] := by
  decide

/-- A block without its heading, up to the text of its example call. -/
def blockOpening (t : Tool) (parameters : List Resolved) : List Char :=
  t.descriptionLines ++ '\n' :: (fenceLine ++ '\n' :: (chars (schemaValue t parameters) ++ '\n' ::
    ("```".toList ++ '\n' :: '\n' :: (exampleHeading.toList ++ '\n' :: ('/' :: t.name.toList ++ '\n' ::
      (fenceLine ++ ['\n']))))))

def blockClosing (t : Tool) (parameters : List Resolved) : List Char :=
  t.exampleText parameters ++ '\n' :: "```".toList

theorem blockText_eq (t : Tool) (parameters : List Resolved) :
    t.blockText parameters = header t ++ (t.blockOpening parameters ++ t.blockClosing parameters) := by
  show "## ".toList ++ t.name.toList ++ ['\n'] ++ t.descriptionLines ++ ['\n'] ++
      (fenceLine ++ ['\n']) ++ chars (schemaValue t parameters) ++
      ('\n' :: ("```".toList ++ ['\n', '\n'])) ++ exampleHeading.toList ++ ['\n', '/'] ++
      t.name.toList ++ ['\n'] ++ (fenceLine ++ ['\n']) ++ t.exampleText parameters ++
      ('\n' :: "```".toList) = _
  simp only [header, blockOpening, blockClosing, List.append_assoc, List.cons_append, List.nil_append]

/-! ## Headings -/

theorem headingLine_ne (u : Tool) {c : Char} (h : c ≠ '#') (s : List Char) :
    headingLine u ≠ c :: s := by
  intro he
  have hh : '#' :: '#' :: ' ' :: u.name.toList = c :: s := he
  exact h (List.cons.inj hh).1.symm

theorem newline_not_mem_name {t : Tool} (h : ∀ c ∈ t.name.toList, Text.isBlank c = false) :
    '\n' ∉ t.name.toList := by
  intro hm
  exact absurd (h '\n' hm) (by decide)

theorem startsLine_blockOpening (t : Tool) (parameters : List Resolved) :
    StartsLine (t.blockOpening parameters) := by
  right
  simp [blockOpening, List.getLast?_append, List.getLast?_cons]

/-- The full lines of an opening: the description brings its own, and the others are fixed. -/
theorem fullLines_blockOpening {t : Tool} (hname : '\n' ∉ t.name.toList)
    (parameters : List Resolved) :
    fullLines (t.blockOpening parameters) =
      t.descriptionLines.splitOn '\n' ++
        [fenceLine, chars (schemaValue t parameters), "```".toList, [], exampleHeading.toList,
          '/' :: t.name.toList, fenceLine] := by
  have hfence : '\n' ∉ fenceLine := by decide
  have hclose : '\n' ∉ "```".toList := by decide
  have hexample : '\n' ∉ exampleHeading.toList := by decide
  have hcall : '\n' ∉ '/' :: t.name.toList := by simp [hname]
  have hschema := Json.newline_not_mem_chars (schemaValue t parameters)
  rw [blockOpening, Text.fullLines_append, Text.fullLines_line_append hfence,
    Text.fullLines_line_append hschema, Text.fullLines_line_append hclose, Text.fullLines_newline,
    Text.fullLines_line_append hexample, Text.fullLines_line_append hcall,
    Text.fullLines_line_append hfence, Text.fullLines_nil]

/-- A heading that is no line of the description is no line of the opening. -/
theorem headingLine_not_mem_blockOpening {t u : Tool} (hname : '\n' ∉ t.name.toList)
    (h : headingLine u ∉ t.descriptionText.splitOn '\n') (parameters : List Resolved) :
    headingLine u ∉ fullLines (t.blockOpening parameters) := by
  have hdescription : headingLine u ∉ t.descriptionLines.splitOn '\n' := by
    simp only [descriptionLines]
    split
    · simp [Audit.headingLine_ne_nil]
    · rw [List.splitOn_append_cons_self, List.mem_append, not_or]
      exact ⟨h, by simp [Audit.headingLine_ne_nil]⟩
  have hempty := Audit.headingLine_ne_nil u
  have hfence : headingLine u ≠ fenceLine := headingLine_ne u (by decide) _
  have hclose : headingLine u ≠ "```".toList := headingLine_ne u (by decide) _
  have hheading : headingLine u ≠ exampleHeading.toList := headingLine_ne u (by decide) _
  have hcall : headingLine u ≠ '/' :: t.name.toList := headingLine_ne u (by decide) _
  have hschema : headingLine u ≠ chars (schemaValue t parameters) := headingLine_ne u (by decide) _
  rw [fullLines_blockOpening hname]
  simp only [List.mem_append, List.mem_cons, List.not_mem_nil, or_false, not_or]
  exact ⟨hdescription, hfence, hschema, hclose, hempty, hheading, hcall, hfence⟩

/-- The lines of the written example from the first that is the heading of the other tool. -/
def quoteLines (t u : Tool) : List (List Char) :=
  ((t.writtenExample?.getD []).splitOn '\n').dropWhile (· != headingLine u)

theorem dropWhile_exampleText (t u : Tool) (parameters : List Resolved) :
    ((t.exampleText parameters).splitOn '\n').dropWhile (· != headingLine u) = t.quoteLines u := by
  rw [exampleText, quoteLines]
  cases t.writtenExample? with
  | some e => rfl
  | none =>
    have hn := Json.newline_not_mem_chars (sampleCall parameters)
    have hne : chars (sampleCall parameters) ≠ headingLine u :=
      (headingLine_ne u (by decide) _).symm
    have hempty := (Audit.headingLine_ne_nil u).symm
    rw [Option.getD_none, Option.getD_none, List.splitOn_eq_singleton hn]
    simp [hne, hempty]

/-- What stands between the first heading of the other tool and the one that ends these lines comes
from the written example. -/
theorem mem_quoteLines_of_mem_after {t u : Tool} {parameters : List Resolved}
    {before after : List (List Char)}
    (h : (t.exampleText parameters).splitOn '\n' ++ ["```".toList, [], headingLine u] =
      before ++ headingLine u :: after)
    (hb : headingLine u ∉ before) {l : List Char} (hl : l ∈ after) :
    l ∈ t.quoteLines u ∨ l = "```".toList ∨ l = [] := by
  have hclose : "```".toList ≠ headingLine u := (headingLine_ne u (by decide) _).symm
  have hempty := (Audit.headingLine_ne_nil u).symm
  have hpass : ∀ l ∈ before, (l != headingLine u) = true := by
    intro l hl
    exact bne_iff_ne.2 fun he => hb (he ▸ hl)
  have hfirst (more : List (List Char)) : (headingLine u :: more).dropWhile (· != headingLine u) =
      headingLine u :: more :=
    List.dropWhile_cons_of_neg (by simp)
  have hfixed : ∀ l ∈ ["```".toList, []], (l != headingLine u) = true := by
    intro l hl
    rcases List.mem_pair.1 hl with rfl | rfl
    · exact bne_iff_ne.2 hclose
    · exact bne_iff_ne.2 hempty
  have hlast : ["```".toList, [], headingLine u].dropWhile (· != headingLine u) =
      [headingLine u] :=
    (List.dropWhile_append_of_pos hfixed).trans (hfirst [])
  have hdrop := congrArg (List.dropWhile (· != headingLine u)) h
  rw [List.dropWhile_append, dropWhile_exampleText, List.dropWhile_append_of_pos hpass] at hdrop
  cases hq : t.quoteLines u with
  | nil =>
    rw [hq, List.isEmpty_nil, if_pos rfl, hlast, hfirst] at hdrop
    obtain rfl := (List.cons.inj hdrop).2
    simp at hl
  | cons first quoted =>
    rw [hq, List.isEmpty_cons, if_neg Bool.false_ne_true, List.cons_append, hfirst] at hdrop
    obtain ⟨rfl, rfl⟩ := List.cons.inj hdrop
    simp only [List.mem_append, List.mem_cons, List.not_mem_nil, or_false] at hl ⊢
    rcases hl with hl | hl | hl | hl
    · exact Or.inl (Or.inr hl)
    · exact Or.inr (Or.inl hl)
    · exact Or.inr (Or.inr hl)
    · exact Or.inl (Or.inl hl)

/-- The first heading of the next tool after an opening. If it is not that of the next block, it
stands in the written example, and lines of the example are left over. -/
theorem exists_first_heading (t : Tool) {u : Tool} (hname : '\n' ∉ u.name.toList)
    (parameters : List Resolved) :
    ∃ before after,
      t.blockClosing parameters ++ (blockSeparator.toList ++ header u) =
        before ++ (header u ++ after) ∧
      StartsLine before ∧ headingLine u ∉ fullLines before ∧ StartsLine after ∧
      ∀ l ∈ fullLines after, l ∈ t.quoteLines u ∨ l = "```".toList ∨ l = [] := by
  have hline := Audit.newline_not_mem_headingLine hname
  have hclose : '\n' ∉ "```".toList := by decide
  have hlines : fullLines (t.blockClosing parameters ++ (blockSeparator.toList ++ header u)) =
      (t.exampleText parameters).splitOn '\n' ++ ["```".toList, [], headingLine u] := by
    simp only [blockClosing, blockSeparator_toList, Audit.header_eq, List.append_assoc, List.cons_append,
      List.nil_append]
    rw [Text.fullLines_append, Text.fullLines_line_append hclose, Text.fullLines_newline,
      Text.fullLines_line_append hline, Text.fullLines_nil]
  have hm : headingLine u ∈
      fullLines (t.blockClosing parameters ++ (blockSeparator.toList ++ header u)) := by
    rw [hlines]
    simp
  obtain ⟨before, after, htext, hb, hfirst, hcut⟩ := Audit.exists_first_line hm
  have hstarts : StartsLine (before ++ (headingLine u ++ '\n' :: after)) := by
    rw [← htext, ← List.append_assoc]
    exact Or.inr (by rw [Audit.header_eq, ← List.append_assoc, List.getLast?_concat])
  have hafter : StartsLine after := by
    rw [← List.append_assoc] at hstarts
    exact hstarts.of_append
  refine ⟨before, after, ?_, hb, hfirst, hafter, ?_⟩
  · rw [htext, Audit.header_eq, List.append_assoc, List.singleton_append]
  · rw [hlines] at hcut
    exact fun l hl => mem_quoteLines_of_mem_after hcut hfirst hl

/-! ## The schema and the example call -/

theorem lines_descriptionText (t : Tool) (s : List Char) :
    lines (t.descriptionLines ++ s) = lines t.descriptionText ++ lines s := by
  simp only [descriptionLines]
  split
  · rename_i h
    have hnil : t.descriptionText = [] := List.isEmpty_iff.1 h
    rw [hnil]
    rfl
  · rename_i h
    have hne : t.descriptionText ≠ [] := fun he => h (List.isEmpty_iff.2 he)
    have hlast := List.getLast?_eq_some_getLast hne
    have hblank := Text.getLast_trim_not_blank hlast
    have hconcat : lines (t.descriptionText ++ ['\n']) = lines t.descriptionText := by
      apply Text.lines_concat hlast
      · intro he
        rw [he] at hblank
        exact absurd hblank (by decide)
      · intro he
        rw [he] at hblank
        exact absurd hblank (by decide)
    rw [List.append_assoc, List.singleton_append, Text.lines_append]
    exact congrArg (· ++ lines s) hconcat

theorem dropReturn_headingLine {t : Tool} (h : ∀ c ∈ t.name.toList, Text.isBlank c = false) :
    Text.dropReturn (headingLine t) = headingLine t := by
  refine Text.dropReturn_eq_self fun hl => ?_
  have hm : '\r' ∈ "## ".toList ++ t.name.toList := List.mem_of_getLast? hl
  rcases List.mem_append.1 hm with hm | hm
  · exact absurd hm (by decide)
  · exact absurd (h '\r' hm) (by decide)

/-- The reader's lines of an opening after a heading and lines that were carried along. The schema and
the fence before it are lines of their own, whatever the description holds. -/
theorem exists_lines_blockOpening {t : Tool}
    (hname : ∀ c ∈ t.name.toList, Text.isBlank c = false) {carried : List Char}
    (hs : StartsLine carried) (parameters : List Resolved) (more : List Char) :
    ∃ below, lines (header t ++ (carried ++ (t.blockOpening parameters ++ more))) =
      headingLine t :: (fullLines carried).map Text.dropReturn ++
        (lines t.descriptionText ++
          [] :: fenceLine :: chars (schemaValue t parameters) :: below) := by
  have hheading := Audit.newline_not_mem_headingLine (newline_not_mem_name hname)
  have hfence : '\n' ∉ fenceLine := by decide
  have hfenced : Text.dropReturn fenceLine = fenceLine := by decide
  have hschema := Json.newline_not_mem_chars (schemaValue t parameters)
  have hreturn : Text.dropReturn (chars (schemaValue t parameters)) =
      chars (schemaValue t parameters) :=
    Text.dropReturn_eq_self fun hl => Json.return_not_mem_chars _ (List.mem_of_getLast? hl)
  simp only [Audit.header_eq, blockOpening, List.append_assoc, List.cons_append, List.nil_append]
  rw [Text.lines_line_append hheading, dropReturn_headingLine hname,
    Audit.lines_append_of_startsLine hs, lines_descriptionText, Text.lines_newline,
    Text.lines_line_append hfence, hfenced, Text.lines_line_append hschema, hreturn]
  exact ⟨_, rfl⟩

theorem fenceLine_ne_headingLine (t : Tool) : fenceLine ≠ headingLine t :=
  (headingLine_ne t (by decide) _).symm

/-- The line after the first fence is the schema, if no line before the opening or of the description
is a fence. -/
theorem fencedLine_blockOpening {t : Tool}
    (hname : ∀ c ∈ t.name.toList, Text.isBlank c = false) {carried : List Char}
    (hs : StartsLine carried) (hcarried : ∀ l ∈ fullLines carried, Text.dropReturn l ≠ fenceLine)
    (hfree : fenceLine ∉ lines t.descriptionText) (parameters : List Resolved)
    (more : List Char) :
    Audit.FencedLine (header t ++ (carried ++ (t.blockOpening parameters ++ more)))
      (chars (schemaValue t parameters)) := by
  obtain ⟨below, hlines⟩ := exists_lines_blockOpening hname hs parameters more
  refine ⟨headingLine t :: (fullLines carried).map Text.dropReturn ++
    (lines t.descriptionText ++ [[]]), below, by simp [hlines], ?_⟩
  have hne := fenceLine_ne_headingLine t
  have hnil : fenceLine ≠ [] := by decide
  have hmap : fenceLine ∉ (fullLines carried).map Text.dropReturn := by
    intro hm
    obtain ⟨l, hl, he⟩ := List.mem_map.1 hm
    exact hcarried l hl he
  simp only [List.cons_append, List.mem_cons, List.mem_append, List.not_mem_nil, or_false, not_or]
  exact ⟨hne, hmap, hfree, hnil⟩

theorem exampleCall_infix_blockOpening (t : Tool) (carried : List Char)
    (parameters : List Resolved) (more : List Char) :
    Audit.exampleCall t <:+: header t ++ (carried ++ (t.blockOpening parameters ++ more)) := by
  refine ⟨header t ++ (carried ++ (t.descriptionLines ++ '\n' :: (fenceLine ++ '\n' ::
      (chars (schemaValue t parameters) ++ '\n' :: ("```".toList ++ ['\n', '\n']))))), more, ?_⟩
  show header t ++ (carried ++ (t.descriptionLines ++ '\n' :: (fenceLine ++ '\n' ::
      (chars (schemaValue t parameters) ++ '\n' :: ("```".toList ++ ['\n', '\n']))))) ++
    (exampleHeading.toList ++ ['\n', '/'] ++ t.name.toList ++ ['\n'] ++ (fenceLine ++ ['\n'])) ++
    more = _
  simp only [blockOpening, List.append_assoc, List.cons_append, List.nil_append]

end AgentPrompt.Tool
