import AgentPrompt.Proofs.Except
import AgentPrompt.Proofs.Text.Infix
import AgentPrompt.Proofs.Tool.BlockLines

/-! The audit finds the blocks of a formatted list again by searching its text. Whatever the
descriptions and examples hold, each tool has its section; lines of a written example may be carried
in front of a block. -/
namespace AgentPrompt.Audit
open Json (chars)
open Text (dropReturn fullLines lines)
open Tool (Resolved blockSeparator)

/-! ## The text of a list -/

abbrev Part := Tool × List Resolved

/-- The parts of a list that is formatted, with no block carrying legacy markup. -/
structure Formats (parts : List Part) : Prop where
  resolved : ∀ p ∈ parts, p.1.resolve = .ok p.2
  clean : ∀ p ∈ parts, ∀ m ∈ Markup.legacyMarkers, ¬ m.toList <:+: p.1.blockText p.2

def listText : List Part → List Char
  | [] => []
  | [p] => p.1.blockText p.2
  | p :: q :: parts => p.1.blockText p.2 ++ (blockSeparator.toList ++ listText (q :: parts))

theorem block_eq_ok {t : Tool} {text : String} (h : t.block = .ok text) :
    ∃ parameters, t.resolve = .ok parameters ∧ text.toList = t.blockText parameters ∧
      ∀ m ∈ Markup.legacyMarkers, ¬ m.toList <:+: t.blockText parameters := by
  simp only [Tool.block] at h
  split at h
  · simp at h
  · rename_i parameters hr
    split at h
    · simp at h
    · rename_i hm
      obtain rfl := Except.ok.inj h
      exact ⟨parameters, hr, by simp, (Markup.findLegacy?_eq_none_iff _).1 hm⟩

theorem mapM_block_eq_ok {tools : List Tool} {blocks : List String}
    (h : tools.mapM Tool.block = .ok blocks) :
    ∃ parts : List Part, parts.map Prod.fst = tools ∧ Formats parts ∧
      blocks.map String.toList = parts.map fun p => p.1.blockText p.2 := by
  induction tools generalizing blocks with
  | nil =>
    obtain rfl := Except.ok.inj h
    exact ⟨[], rfl, ⟨by simp, by simp⟩, rfl⟩
  | cons t tools ih =>
    obtain ⟨block, more, hblock, hmore, rfl⟩ := Except.mapM_cons_eq_ok_iff.1 h
    obtain ⟨parameters, hr, htext, hclean⟩ := block_eq_ok hblock
    obtain ⟨parts, rfl, hf, hblocks⟩ := ih hmore
    refine ⟨(t, parameters) :: parts, rfl, ⟨?_, ?_⟩, by simp [htext, hblocks]⟩
    · exact List.forall_mem_cons.2 ⟨hr, hf.resolved⟩
    · exact List.forall_mem_cons.2 ⟨hclean, hf.clean⟩

theorem intercalate_blocks (parts : List Part) :
    blockSeparator.toList.intercalate (parts.map fun p => p.1.blockText p.2) = listText parts := by
  induction parts with
  | nil => rfl
  | cons p parts ih =>
    cases parts with
    | nil => simp [listText]
    | cons q parts =>
      rw [listText, ← ih]
      simp [List.intercalate_cons_cons]

/-- A formatted list is the blocks of its parts. -/
theorem blockList_eq_ok {tools : List Tool} {text : String} (h : Tool.blockList tools = .ok text) :
    ∃ parts : List Part, parts.map Prod.fst = tools ∧ Formats parts ∧
      text.toList = listText parts := by
  simp only [Tool.blockList, Except.bind_eq_ok_iff, pure, Except.pure, Except.ok.injEq] at h
  obtain ⟨blocks, hblocks, rfl⟩ := h
  obtain ⟨parts, hparts, hf, htexts⟩ := mapM_block_eq_ok hblocks
  refine ⟨parts, hparts, hf, ?_⟩
  rw [String.toList_intercalate, htexts, intercalate_blocks]

/-- The parts of a list are known where no tool has parameters. -/
theorem Formats.eq_of_bare {parts : List Part} (hf : Formats parts)
    (h : ∀ t ∈ parts.map Prod.fst, t.parameters = []) :
    parts = (parts.map Prod.fst).map fun t => (t, []) := by
  induction parts with
  | nil => rfl
  | cons p parts ih =>
    obtain ⟨t, parameters⟩ := p
    obtain ⟨ht, hmore⟩ := List.forall_mem_cons.1 h
    have hr : t.resolve = .ok parameters := hf.resolved _ List.mem_cons_self
    obtain rfl := Tool.eq_nil_of_resolve ht hr
    have hparts := ih ⟨fun q hq => hf.resolved q (List.mem_cons_of_mem _ hq),
      fun q hq => hf.clean q (List.mem_cons_of_mem _ hq)⟩ hmore
    rw [List.map_cons, List.map_cons, ← hparts]

/-! ## Legacy markup -/

theorem newline_not_mem_marker : ∀ m ∈ Markup.legacyMarkers, '\n' ∉ m.toList := by
  decide

theorem listText_clean {parts : List Part} (hf : Formats parts) :
    ∀ m ∈ Markup.legacyMarkers, ¬ m.toList <:+: listText parts := by
  intro m hm
  have hne : m.toList ≠ [] := by
    have hall : ∀ m ∈ Markup.legacyMarkers, m.toList ≠ [] := by decide
    exact hall m hm
  have hseparator : ∀ c ∈ blockSeparator.toList, c ∉ m.toList := by
    rw [Tool.blockSeparator_toList]
    simpa using newline_not_mem_marker m hm
  rw [← intercalate_blocks, Text.infix_intercalate_iff hne (by decide) hseparator]
  rintro ⟨text, htext, hin⟩
  obtain ⟨p, hp, rfl⟩ := List.mem_map.1 htext
  exact hf.clean p hp m hm hin

/-! ## Sections -/

theorem newline_not_mem_name {parts : List Part} (hf : Formats parts) :
    ∀ p ∈ parts, '\n' ∉ p.1.name.toList :=
  fun p hp => Tool.newline_not_mem_name (Tool.resolve_eq_ok (hf.resolved p hp)).1

/-- The headings stand among the lines of the list, in order. -/
theorem headings_sublist {parts : List Part} (hnames : ∀ p ∈ parts, '\n' ∉ p.1.name.toList) :
    (parts.map fun p => headingLine p.1).Sublist (fullLines (listText parts)) := by
  induction parts with
  | nil => exact List.nil_sublist _
  | cons p parts ih =>
    have hline := newline_not_mem_headingLine (hnames p List.mem_cons_self)
    have hmore := ih fun q hq => hnames q (List.mem_cons_of_mem _ hq)
    have hfirst : ∀ s, fullLines (header p.1 ++ s) = headingLine p.1 :: fullLines s := by
      intro s
      rw [header_eq, List.append_assoc, List.singleton_append, Text.fullLines_line_append hline]
    rw [List.map_cons]
    cases parts with
    | nil =>
      rw [listText, Tool.blockText_eq, hfirst]
      exact List.cons_sublist_cons.2 (List.nil_sublist _)
    | cons q parts =>
      rw [listText, Tool.blockText_eq, List.append_assoc, hfirst, Tool.blockSeparator_toList, List.cons_append,
        List.singleton_append, Text.fullLines_append, Text.fullLines_newline]
      refine List.cons_sublist_cons.2 (hmore.trans ?_)
      exact (List.sublist_cons_self _ _).trans (List.sublist_append_right _ _)

/-- No tool's description has the heading of the next tool, and no written example goes on from that
heading to the one after it. -/
def Unquoted : List Tool → Prop
  | t :: u :: tools =>
    headingLine u ∉ t.descriptionText.splitOn '\n' ∧
      (∀ v ∈ tools.head?, headingLine v ∉ t.quoteLines u) ∧ Unquoted (u :: tools)
  | _ => True

instance decidableUnquoted : (tools : List Tool) → Decidable (Unquoted tools)
  | [] => .isTrue trivial
  | [_] => .isTrue trivial
  | _ :: u :: tools =>
    have := decidableUnquoted (u :: tools)
    inferInstanceAs (Decidable (_ ∧ _ ∧ _))

/-- No description has a fence, and no written example goes on from the heading of the next tool to a
fence. -/
structure Unfenced (tools : List Tool) : Prop where
  descriptions : ∀ t ∈ tools, fenceLine ∉ lines t.descriptionText
  quotes : tools.IsChain fun t u => fenceLine ∉ (t.quoteLines u).map dropReturn

instance (tools : List Tool) : Decidable (Unfenced tools) :=
  decidable_of_iff ((∀ t ∈ tools, fenceLine ∉ lines t.descriptionText) ∧
      tools.IsChain fun t u => fenceLine ∉ (t.quoteLines u).map dropReturn)
    ⟨fun h => ⟨h.1, h.2⟩, fun h => ⟨h.descriptions, h.quotes⟩⟩

/-- What follows the heading of a section: lines that an example left over, which are `ok`, and the
opening of the tool's block. -/
def Opens (ok : List Char → Prop) (p : Part) (b : Tool × List Char) : Prop :=
  ∃ carried more, b = (p.1, carried ++ (p.1.blockOpening p.2 ++ more)) ∧ StartsLine carried ∧
    ∀ l ∈ fullLines carried, ok l

theorem Undisturbed.replace {before : List Char} {b : Tool × List Char}
    {bodies : List (Tool × List Char)} (h : Undisturbed [] (b :: bodies))
    (hb : StartsLine before) (hf : headingLine b.1 ∉ fullLines before) :
    Undisturbed before (b :: bodies) :=
  ⟨hb, hf, h.2.2⟩

section
variable {ok : List Char → Prop} (hclose : ok "```".toList) (hnil : ok [])
include hclose hnil

/-- Where the search for the next tool's heading cuts the text after a heading: the lines after the
cut are carried into the next block. -/
theorem exists_cut {p : Part} {u : Tool} {carried : List Char} (hs : StartsLine carried)
    (hcarried : headingLine u ∉ fullLines carried) (hp : '\n' ∉ p.1.name.toList)
    (hu : '\n' ∉ u.name.toList) (hdescription : headingLine u ∉ p.1.descriptionText.splitOn '\n')
    (hquote : ∀ l ∈ p.1.quoteLines u, ok l) :
    ∃ more after,
      p.1.blockClosing p.2 ++ (blockSeparator.toList ++ header u) = more ++ (header u ++ after) ∧
      StartsLine (carried ++ (p.1.blockOpening p.2 ++ more)) ∧
      headingLine u ∉ fullLines (carried ++ (p.1.blockOpening p.2 ++ more)) ∧ StartsLine after ∧
      (∀ l ∈ fullLines after, ok l) ∧
      ∀ v, headingLine v ∉ p.1.quoteLines u → headingLine v ∉ fullLines after := by
  obtain ⟨more, after, htext, hm, hfirst, ha, hlines⟩ := Tool.exists_first_heading p.1 hu p.2
  have hopening := Tool.headingLine_not_mem_blockOpening hp hdescription p.2
  have hstarts := Tool.startsLine_blockOpening p.1 p.2
  refine ⟨more, after, htext, hs.append (hstarts.append hm), ?_, ha, ?_, ?_⟩
  · rw [fullLines_append_of_startsLine hs, fullLines_append_of_startsLine hstarts]
    simp only [List.mem_append, not_or]
    exact ⟨hcarried, hopening, hfirst⟩
  · intro l hl
    rcases hlines l hl with hl | rfl | rfl
    · exact hquote l hl
    · exact hclose
    · exact hnil
  · intro v hv hm
    rcases hlines _ hm with hm | hm | hm
    · exact hv hm
    · exact Tool.headingLine_ne v (by decide) _ hm
    · exact headingLine_ne_nil v hm

/-- Cuts a list at the headings that the search finds, some lines being carried into the first
block. -/
theorem exists_bodies {p : Part} {parts : List Part} {carried : List Char}
    (hs : StartsLine carried) (hok : ∀ l ∈ fullLines carried, ok l)
    (hnext : ∀ q ∈ parts.head?, headingLine q.1 ∉ fullLines carried)
    (hnames : ∀ q ∈ p :: parts, '\n' ∉ q.1.name.toList)
    (hu : Unquoted ((p :: parts).map Prod.fst))
    (hquotes : ((p :: parts).map Prod.fst).IsChain fun t u => ∀ l ∈ t.quoteLines u, ok l) :
    ∃ bodies rest, List.Forall₂ (Opens ok) (p :: parts) bodies ∧ Undisturbed [] bodies ∧
      listText (p :: parts) = header p.1 ++ rest ∧
      (bodies.flatMap fun b => header b.1 ++ b.2) = header p.1 ++ (carried ++ rest) := by
  have hstart : StartsLine [] := Or.inl rfl
  have hempty : ∀ t : Tool, headingLine t ∉ fullLines [] := by simp
  induction parts generalizing p carried with
  | nil =>
    refine ⟨[(p.1, carried ++ (p.1.blockOpening p.2 ++ p.1.blockClosing p.2))],
      p.1.blockOpening p.2 ++ p.1.blockClosing p.2, ?_, ⟨hstart, hempty _, trivial⟩,
      Tool.blockText_eq _ _, by simp⟩
    exact .cons ⟨carried, _, rfl, hs, hok⟩ .nil
  | cons q parts ih =>
    obtain ⟨hdescription, hlater, hu⟩ := hu
    obtain ⟨hquote, hquotes⟩ := List.isChain_cons_cons.1 hquotes
    have hmore : ∀ r ∈ q :: parts, '\n' ∉ r.1.name.toList :=
      fun r hr => hnames r (List.mem_cons_of_mem _ hr)
    obtain ⟨more, after, htext, hbody, hfirst, ha, hokafter, hnextafter⟩ :=
      exists_cut hclose hnil hs (hnext q rfl) (hnames p List.mem_cons_self)
        (hmore q List.mem_cons_self) hdescription hquote
    have hnext : ∀ r ∈ parts.head?, headingLine r.1 ∉ fullLines after := by
      intro r hr
      apply hnextafter
      apply hlater
      rw [List.head?_map]
      exact Option.mem_map_of_mem _ hr
    obtain ⟨_, rest, hopens, hundisturbed, hlist, hbodies⟩ :=
      ih ha hokafter hnext hmore hu hquotes
    cases hopens with
    | cons hopen hopens =>
      rename_i b bodies
      have hbq : b.1 = q.1 := by
        obtain ⟨_, _, rfl, -, -⟩ := hopen
        rfl
      refine ⟨(p.1, carried ++ (p.1.blockOpening p.2 ++ more)) :: b :: bodies,
        p.1.blockOpening p.2 ++ (more ++ (header q.1 ++ (after ++ rest))),
        .cons ⟨carried, more, rfl, hs, hok⟩ (.cons hopen hopens),
        ⟨hstart, hempty _, hundisturbed.replace hbody (hbq ▸ hfirst)⟩, ?_, ?_⟩
      · have hcut : more ++ (header q.1 ++ (after ++ rest)) =
            p.1.blockClosing p.2 ++ (blockSeparator.toList ++ (header q.1 ++ rest)) := by
          have h := congrArg (· ++ rest) htext
          simpa using h.symm
        rw [listText, hlist, hcut, Tool.blockText_eq]
        simp
      · rw [List.flatMap_cons, hbodies]
        simp

omit hclose hnil in
theorem map_fst_of_opens {parts : List Part} {bodies : List (Tool × List Char)}
    (h : List.Forall₂ (Opens ok) parts bodies) : bodies.map Prod.fst = parts.map Prod.fst := by
  induction h with
  | nil => rfl
  | cons hopen _ ih =>
    obtain ⟨_, _, rfl, -, -⟩ := hopen
    rw [List.map_cons, List.map_cons, ih]

/-- The sections that the search finds open with the blocks of their tools. -/
theorem exists_opening_sections {parts : List Part} (hf : Formats parts)
    (hu : Unquoted (parts.map Prod.fst))
    (hquotes : (parts.map Prod.fst).IsChain fun t u => ∀ l ∈ t.quoteLines u, ok l) :
    ∃ bodies, List.Forall₂ (Opens ok) parts bodies ∧
      sections (listText parts) (parts.map Prod.fst) =
        some (bodies.map fun b => header b.1 ++ b.2) := by
  have hnames := newline_not_mem_name hf
  cases parts with
  | nil => exact ⟨[], .nil, rfl⟩
  | cons p parts =>
    have hstart : StartsLine [] := Or.inl rfl
    obtain ⟨bodies, rest, hopens, hundisturbed, hlist, hbodies⟩ :=
      exists_bodies hclose hnil hstart (by simp) (by simp) hnames hu hquotes
    have htools := map_fst_of_opens hopens
    have hbodynames : ∀ b ∈ bodies, '\n' ∉ b.1.name.toList := by
      intro b hb
      have hm : b.1 ∈ bodies.map Prod.fst := List.mem_map_of_mem hb
      rw [htools] at hm
      obtain ⟨q, hq, he⟩ := List.mem_map.1 hm
      rw [← he]
      exact hnames q hq
    have hs := sectionsAfter_undisturbed hbodynames hundisturbed
    rw [hbodies, List.nil_append, List.nil_append, ← hlist] at hs
    refine ⟨bodies, hopens, ?_⟩
    rw [sections, ← htools, List.map_map]
    exact congrArg (Option.map Prod.snd) hs

end

theorem exists_sections {parts : List Part} (hf : Formats parts) :
    ∃ texts, sections (listText parts) (parts.map Prod.fst) = some texts := by
  have hnames := newline_not_mem_name hf
  have htools : ∀ t ∈ parts.map Prod.fst, '\n' ∉ t.name.toList := by
    intro t ht
    obtain ⟨p, hp, rfl⟩ := List.mem_map.1 ht
    exact hnames p hp
  have hsub := headings_sublist hnames
  have hmap : (parts.map fun p => headingLine p.1) = (parts.map Prod.fst).map headingLine := by
    rw [List.map_map]
    rfl
  rw [hmap] at hsub
  obtain ⟨r, hr⟩ := exists_sectionsAfter htools hsub
  exact ⟨r.2, by rw [sections, hr, Option.map_some]⟩

/-! ## The checks -/

/-- Each tool of a list with its section, which opens with its block. -/
theorem mem_zip_sections {ok : List Char → Prop} {parts : List Part}
    {bodies : List (Tool × List Char)} (h : List.Forall₂ (Opens ok) parts bodies)
    {x : Tool × List Char}
    (hx : x ∈ (parts.map Prod.fst).zip (bodies.map fun b => header b.1 ++ b.2)) :
    ∃ part ∈ parts, ∃ carried more,
      x = (part.1, header part.1 ++ (carried ++ (part.1.blockOpening part.2 ++ more))) ∧
        StartsLine carried ∧ ∀ l ∈ fullLines carried, ok l := by
  induction h with
  | nil => simp at hx
  | cons hopen _ ih =>
    obtain ⟨carried, more, rfl, hs, hok⟩ := hopen
    rcases List.mem_cons.1 hx with rfl | hx
    · exact ⟨_, List.mem_cons_self, carried, more, rfl, hs, hok⟩
    · obtain ⟨q, hq, hmore⟩ := ih hx
      exact ⟨q, List.mem_cons_of_mem _ hq, hmore⟩

def Report.Passes (r : Report) (topic : Topic) : Prop :=
  ∃ c ∈ r, c.topic = topic ∧ c.passed

theorem markupCheck_passed_of_clean {s : List Char}
    (h : ∀ m ∈ Markup.legacyMarkers, ¬ m.toList <:+: s) : (markupCheck s).passed := by
  rw [← Markup.findLegacy?_eq_none_iff] at h
  simp [markupCheck, Check.passed, h]

theorem exampleProblems_opening (part : Part) (carried more : List Char) :
    exampleProblems part.1
      (header part.1 ++ (carried ++ (part.1.blockOpening part.2 ++ more))) = [] := by
  have h := (Text.contains_iff_infix _ _).2
    (Tool.exampleCall_infix_blockOpening part.1 carried part.2 more)
  simp [exampleProblems, h]

theorem exampleProblems_eq_nil_of_opens {ok : List Char → Prop} {parts : List Part}
    {bodies : List (Tool × List Char)} (h : List.Forall₂ (Opens ok) parts bodies) :
    ((parts.map Prod.fst).zip (bodies.map fun b => header b.1 ++ b.2)).flatMap
      (fun p => exampleProblems p.1 p.2) = [] := by
  rw [List.flatMap_eq_nil_iff]
  intro x hx
  obtain ⟨part, -, carried, more, rfl, -⟩ := mem_zip_sections h hx
  exact exampleProblems_opening part carried more

section
variable {parts : List Part} (hf : Formats parts)
include hf

theorem not_stray :
    ((parts.map Prod.fst).isEmpty && !Text.isBlankText (listText parts)) = false := by
  cases parts with
  | nil => rfl
  | cons p parts => rfl

theorem passes_toolOrder :
    (auditTools (listText parts) (parts.map Prod.fst)).Passes .toolOrder := by
  obtain ⟨texts, hs⟩ := exists_sections hf
  refine ⟨⟨.toolOrder, []⟩, ?_, rfl, rfl⟩
  rw [auditTools, hs]
  simp only [not_stray hf]
  exact List.mem_cons_self

theorem passes_legacyMarkup :
    (auditTools (listText parts) (parts.map Prod.fst)).Passes .legacyMarkup := by
  obtain ⟨texts, hs⟩ := exists_sections hf
  refine ⟨markupCheck (listText parts), ?_, rfl,
    markupCheck_passed_of_clean (listText_clean hf)⟩
  rw [auditTools, hs]
  simp

variable (hu : Unquoted (parts.map Prod.fst))

include hu

theorem passes_examples :
    (auditTools (listText parts) (parts.map Prod.fst)).Passes .examples := by
  have hquotes : (parts.map Prod.fst).IsChain fun t u => ∀ l ∈ t.quoteLines u, True :=
    (List.pairwise_of_forall fun _ _ _ _ => trivial).isChain
  obtain ⟨bodies, hopens, hs⟩ := exists_opening_sections trivial trivial hf hu hquotes
  refine ⟨⟨.examples, []⟩, ?_, rfl, rfl⟩
  rw [auditTools, hs]
  simp [exampleProblems_eq_nil_of_opens hopens]

end

/-- A section shows its schema to a reader that looks for the first fence. -/
theorem readSchema_opening {part : Part} (hr : part.1.resolve = .ok part.2)
    {carried : List Char} (hs : StartsLine carried)
    (hcarried : ∀ l ∈ fullLines carried, dropReturn l ≠ fenceLine)
    (hfree : fenceLine ∉ lines part.1.descriptionText) (hd : part.1.Readable) (more : List Char) :
    readSchema (header part.1 ++ (carried ++ (part.1.blockOpening part.2 ++ more))) =
      .ok (part.1.schemaValue part.2).reread := by
  rw [readSchema_eq_ok_iff]
  exact ⟨chars (part.1.schemaValue part.2),
    Tool.fencedLine_blockOpening (Tool.resolve_eq_ok hr).1 hs hcarried hfree part.2 more,
    Tool.readText_schema hr hd⟩

theorem dialectProblems_schema (t : Tool) (parameters : List Resolved) :
    dialectProblems t (.ok (t.schemaValue parameters).reread) = [] := by
  simp [dialectProblems, Tool.field_dialect, Json.asString?]

theorem requiredProblems_schema (t : Tool) (parameters : List Resolved) :
    requiredProblems t (.ok (t.schemaValue parameters).reread) = [] := by
  have hnames : (t.requiredNames.map Json.string).filterMap Json.asString? = t.requiredNames := by
    simp [List.filterMap_map, Function.comp_def, Json.asString?]
  simp [requiredProblems, listedNames, Tool.field_required, Json.ofStrings, Json.asArray?, hnames]

theorem openProblems_schema (t : Tool) (parameters : List Resolved) :
    openProblems t (.ok (t.schemaValue parameters).reread) = [] := by
  simp [openProblems, Tool.field_closed]

theorem schemaProblems_eq_nil_of_opens {parts : List Part} (hf : Formats parts)
    {bodies : List (Tool × List Char)}
    (hopens : List.Forall₂ (Opens fun l => dropReturn l ≠ fenceLine) parts bodies)
    (hfree : ∀ t ∈ parts.map Prod.fst, fenceLine ∉ lines t.descriptionText)
    (hd : ∀ t ∈ parts.map Prod.fst, t.Readable)
    {problems : Tool → Except SchemaFault Json → List Problem}
    (h : ∀ t parameters, problems t (.ok (t.schemaValue parameters).reread) = []) :
    schemaProblems problems
      ((parts.map Prod.fst).zip (bodies.map fun b => header b.1 ++ b.2)) = [] := by
  rw [schemaProblems, List.flatMap_eq_nil_iff]
  intro x hx
  obtain ⟨part, hpart, carried, more, rfl, hs, hok⟩ := mem_zip_sections hopens hx
  have ht : part.1 ∈ parts.map Prod.fst := List.mem_map_of_mem hpart
  rw [readSchema_opening (hf.resolved part hpart) hs hok (hfree _ ht) (hd _ ht) more]
  exact h part.1 part.2

/-- The audit passes a formatted list whose free texts mislead neither of its searches and whose
schemas it can read. -/
theorem passed_listText {parts : List Part} (hf : Formats parts)
    (hu : Unquoted (parts.map Prod.fst)) (hfree : Unfenced (parts.map Prod.fst))
    (hd : ∀ t ∈ parts.map Prod.fst, t.Readable) :
    (auditTools (listText parts) (parts.map Prod.fst)).passed := by
  have hquotes : (parts.map Prod.fst).IsChain fun t u =>
      ∀ l ∈ t.quoteLines u, dropReturn l ≠ fenceLine := by
    refine hfree.quotes.imp fun t u h l hl he => h ?_
    rw [← he]
    exact List.mem_map_of_mem hl
  obtain ⟨bodies, hopens, hs⟩ :=
    exists_opening_sections (by decide) (by decide) hf hu hquotes
  have hmarkup := markupCheck_passed_of_clean (listText_clean hf)
  have hdialect :=
    schemaProblems_eq_nil_of_opens hf hopens hfree.descriptions hd dialectProblems_schema
  have hrequired :=
    schemaProblems_eq_nil_of_opens hf hopens hfree.descriptions hd requiredProblems_schema
  have hopen :=
    schemaProblems_eq_nil_of_opens hf hopens hfree.descriptions hd openProblems_schema
  have hexample := exampleProblems_eq_nil_of_opens hopens
  rw [auditTools, hs]
  simp only [not_stray hf, hdialect, hrequired, hopen, hexample, Report.passed, List.all_cons,
    List.all_nil, hmarkup]
  rfl

end AgentPrompt.Audit
