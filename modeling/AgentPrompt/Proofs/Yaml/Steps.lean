import AgentPrompt.Proofs.Yaml.Literal

/-! Between two lines of a printed document the lexer stands in the one mapping of the document, at
the left edge. -/
namespace AgentPrompt.Yaml

/-! ## Places -/

namespace Place

theorem line_afterAll {s : List Char} (h : ∀ c ∈ s, isBreak c = false) (p : Place) :
    (p.afterAll s).line = p.line := by
  induction s generalizing p with
  | nil => rfl
  | cons c s ih =>
    obtain ⟨hc, hs⟩ := List.forall_mem_cons.1 h
    rw [afterAll_cons, ih hs]
    simp [after, hc]

theorem offset_afterAll_le (s : List Char) (p : Place) :
    (p.afterAll s).offset ≤ p.offset + 4 * s.length := by
  induction s generalizing p with
  | nil => exact Nat.le_refl _
  | cons c s ih =>
    have hsize : (p.after c).offset = p.offset + c.utf8Size := by
      rw [after]
      split <;> rfl
    have hbound := c.utf8Size_le_four
    have htail := ih (p.after c)
    rw [afterAll_cons, List.length_cons]
    omega

end Place

namespace Lexer

/-- The lexer has read these tokens, outside of flow collections, and no key is overdue. `inside`
tells whether the mapping at the left edge is open. -/
structure Stands (inside : Bool) (ts : List Token) (x : Lexer) : Prop where
  tokens : x.tokens = ts
  count : x.count = ts.length
  indent : x.indent = if inside then 0 else -1
  indents : x.indents = if inside then [-1] else []
  outer : x.outer = []
  optional : ∀ k ∈ x.candidate, k.required = false

def Reaches (x : Lexer) (n : Nat) (y : Lexer) : Prop :=
  ∀ fuel, run (fuel + n) x = run fuel y

theorem Reaches.trans {x y z : Lexer} {m n : Nat} (h : Reaches x m y) (h' : Reaches y n z) :
    Reaches x (m + n) z := by
  intro fuel
  rw [Nat.add_comm m n, ← Nat.add_assoc, h, h']

theorem Reaches.refl (x : Lexer) : Reaches x 0 x :=
  fun _ => rfl

/-! ## Between tokens -/

section
variable {flow keyAllowed : Bool} {place : Place} {rest : List Char}

theorem skipFrom_stop {c : Char} (hbreak : isBreak c = false) (hblank : isBlank c = false)
    (hcomment : c ≠ '#') (hmark : c ≠ byteOrderMark) :
    skipFrom flow keyAllowed false place (c :: rest) = (⟨place, c :: rest⟩, keyAllowed) := by
  simp only [isBlank, Bool.or_eq_false_iff, beq_eq_false_iff_ne] at hblank
  rw [skipFrom]
  simp [hbreak, hblank, hcomment, hmark]

theorem skipFrom_space :
    skipFrom flow keyAllowed false place (' ' :: rest) =
      skipFrom flow keyAllowed false (place.after ' ') rest := by
  have hspace : isBreak ' ' = false := by decide
  rw [skipFrom]
  simp [hspace]

theorem skipFrom_newline :
    skipFrom false keyAllowed false place ('\n' :: rest) =
      skipFrom false true false (place.after '\n') rest := by
  have hbreak : isBreak '\n' := by decide
  rw [skipFrom]
  simp [hbreak]

theorem skipFrom_lineStart (h : LineStart rest) :
    skipFrom flow keyAllowed false place rest = (⟨place, rest⟩, keyAllowed) := by
  cases rest with
  | nil => rfl
  | cons c rest =>
    obtain ⟨hbreak, hblank, hcomment, hmark⟩ := h.head
    exact skipFrom_stop hbreak hblank hcomment hmark

end

section
variable {inside : Bool} {ts : List Token} {x : Lexer}

theorem Stands.inFlow (h : Stands inside ts x) : x.inFlow = false := by
  rw [Lexer.inFlow, h.outer]
  rfl

theorem Stands.dropCandidate (h : Stands inside ts x) :
    x.dropCandidate = .ok { x with candidate := none } := by
  rw [Lexer.dropCandidate]
  split
  · rename_i k hk
    rw [h.optional k hk]
    rfl
  · rename_i hnone
    rw [← hnone]

theorem unroll_eq_self {column : Nat} (h : x.indent ≤ column) : x.unroll column = x := by
  have hclose : ∀ outer, closeBlocks column x outer = x := by
    intro outer
    cases outer with
    | nil => rfl
    | cons i outer => rw [closeBlocks, if_neg (by omega)]
  rw [Lexer.unroll, hclose, ite_self]

theorem Stands.indent_le (h : Stands inside ts x) (column : Nat) : x.indent ≤ column := by
  rw [h.indent]
  cases inside with
  | true =>
    rw [if_pos rfl]
    omega
  | false =>
    rw [if_neg Bool.false_ne_true]
    omega

/-- The lexer has passed what stands between two tokens. -/
structure Settled (x y : Lexer) : Prop where
  cursor : y.cursor = x.skipToToken.cursor
  keyAllowed : y.keyAllowed = x.skipToToken.keyAllowed

theorem Stands.settle (h : Stands inside ts x) :
    ∃ y, x.skipToToken.dropStale = .ok y ∧ Stands inside ts y ∧ Settled x y := by
  obtain ⟨k, hk, hoptional⟩ : ∃ k, refresh x.skipToToken.cursor x.candidate = .ok k ∧
      ∀ c ∈ k, c.required = false := by
    cases hcandidate : x.candidate with
    | none => exact ⟨none, rfl, by simp⟩
    | some k =>
      have hk := h.optional k hcandidate
      rw [refresh]
      split
      · exact ⟨none, by simp [hk], by simp⟩
      · exact ⟨some k, rfl, by simpa using hk⟩
  refine ⟨{ x.skipToToken with candidate := k }, ?_,
    ⟨h.tokens, h.count, h.indent, h.indents, h.outer, hoptional⟩, rfl, rfl⟩
  have hsame : x.skipToToken.candidate = x.candidate := rfl
  rw [dropStale, hsame, hk]
  rfl

/-- One step of the lexer reads the token behind what stands between two tokens. -/
theorem Stands.step (h : Stands inside ts x) {c : Char} {rest : List Char} {P : Lexer → Prop}
    (hrest : x.skipToToken.cursor.rest = c :: rest)
    (htoken : ∀ y, Stands inside ts y → Settled x y → ∃ z, y.token c rest = .ok z ∧ P z) :
    ∃ z, Reaches x 1 z ∧ P z := by
  obtain ⟨y, hsettle, hy, hsettled⟩ := h.settle
  obtain ⟨z, hz, hP⟩ := htoken y hy hsettled
  refine ⟨z, fun fuel => ?_, hP⟩
  have hcursor : y.cursor.rest = c :: rest := by rw [hsettled.cursor, hrest]
  rw [run, hsettle]
  simp only [bind, Except.bind, unroll_eq_self (hy.indent_le _), hcursor, hz]

theorem Stands.saveCandidate_eq (h : Stands inside ts x) (hallowed : x.keyAllowed) :
    x.saveCandidate = .ok
      { x with
        candidate := some ⟨x.count, x.indent == x.cursor.column, x.cursor.toPlace⟩ } := by
  rw [Lexer.saveCandidate, if_pos hallowed, h.dropCandidate]
  have hflow : (!x.inFlow && x.indent == x.cursor.column) = (x.indent == x.cursor.column) := by
    rw [h.inFlow]
    rfl
  rw [← hflow]
  rfl

/-- Away from the left edge no key is overdue. -/
theorem Stands.saveCandidate (h : Stands inside ts x) (hcolumn : 0 < x.cursor.column) :
    ∃ y, x.saveCandidate = .ok y ∧ Stands inside ts y ∧ y.cursor = x.cursor := by
  by_cases hallowed : x.keyAllowed
  · have hedge : (x.indent == (x.cursor.column : Int)) = false := by
      rw [h.indent, beq_eq_false_iff_ne]
      cases inside with
      | true =>
        rw [if_pos rfl]
        omega
      | false =>
        rw [if_neg Bool.false_ne_true]
        omega
    refine ⟨_, h.saveCandidate_eq hallowed, ⟨h.tokens, h.count, h.indent, h.indents, h.outer, ?_⟩,
      rfl⟩
    rintro k ⟨⟩
    exact hedge
  · exact ⟨x, by rw [Lexer.saveCandidate, if_neg hallowed], h, rfl⟩

theorem Stands.push (h : Stands inside ts x) (t : Token) (cursor : Cursor) (keyAllowed : Bool) :
    Stands inside (t :: ts) { x.push t with cursor, keyAllowed } := by
  refine ⟨?_, ?_, h.indent, h.indents, h.outer, h.optional⟩
  · rw [← h.tokens]
    rfl
  · rw [List.length_cons, ← h.count]
    rfl

end

/-! ## Lines -/

structure AtLine (inside : Bool) (ts : List Token) (rest : List Char) (x : Lexer) : Prop extends
    Stands inside ts x where
  line : LineStart rest
  text : x.skipToToken.cursor.rest = rest
  column : x.skipToToken.cursor.column = 0
  allowed : x.skipToToken.keyAllowed

section
variable {inside : Bool} {ts : List Token} {x : Lexer} {rest : List Char}

theorem Stands.skipToToken_eq (h : Stands inside ts x) :
    x.skipToToken.cursor = (skipFrom false x.keyAllowed false x.cursor.toPlace x.cursor.rest).1 ∧
      x.skipToToken.keyAllowed =
        (skipFrom false x.keyAllowed false x.cursor.toPlace x.cursor.rest).2 := by
  rw [skipToToken, h.inFlow]
  exact ⟨rfl, rfl⟩

/-- The lexer stands at the left edge. -/
theorem Stands.atLine (h : Stands inside ts x) (hline : LineStart rest)
    (htext : x.cursor.rest = rest) (hcolumn : x.cursor.column = 0) (hallowed : x.keyAllowed) :
    AtLine inside ts rest x := by
  obtain ⟨hcursor, hkey⟩ := h.skipToToken_eq
  rw [htext, skipFrom_lineStart hline] at hcursor hkey
  exact ⟨h, hline, by rw [hcursor], by rw [hcursor]; exact hcolumn, by rw [hkey]; exact hallowed⟩

/-- The lexer stands before the end of a line. -/
theorem Stands.atLine_newline (h : Stands inside ts x) (hline : LineStart rest)
    (htext : x.cursor.rest = '\n' :: rest) : AtLine inside ts rest x := by
  obtain ⟨hcursor, hkey⟩ := h.skipToToken_eq
  rw [htext, skipFrom_newline, skipFrom_lineStart hline] at hcursor hkey
  have hcolumn : (x.cursor.toPlace.after '\n').column = 0 := Place.column_after_break (by decide) _
  exact ⟨h, hline, by rw [hcursor], by rw [hcursor]; exact hcolumn, hkey⟩

end

/-! ## Scalars -/

section
variable {inside : Bool} {ts : List Token} {x : Lexer} {rest : List Char}

/-- The characters that start no plain scalar, whatever follows. -/
def closedIndicators : List Char :=
  ['#', ',', '[', ']', '\x7b', '\x7d', '&', '*', '!', '|', '>', '\'', '"', '%', '@', '`']

theorem startsPlain_of_isBare {c : Char} {s : List Char} (hs : IsBare (c :: s)) (rest : List Char) :
    c ∉ closedIndicators ∧ (∀ d ∈ ['-', '?', ':'], c = d → startsBlank (s ++ rest) = false) ∧
      startsPlain false c (s ++ rest) := by
  have hfirst := hs.first
  simp only [hasFirstIndicator, Bool.or_eq_false_iff, Bool.and_eq_false_imp] at hfirst
  obtain ⟨hlist, hopen⟩ := hfirst
  have hnot : c ∉ closedIndicators := by simpa [closedIndicators] using hlist
  have happart : ∀ d ∈ ['-', '?', ':'], c = d → startsBlank (s ++ rest) = false := by
    rintro d hd rfl
    exact startsBlank_append_of_startsSpace (hopen (by simpa [or_comm, or_left_comm] using hd)) rest
  refine ⟨hnot, happart, ?_⟩
  by_cases hspecial : c ∈ ['-', '?', ':']
  · have hblank := happart c hspecial rfl
    have hhead : ((s ++ rest).head?.map isBlank).getD false = false := by
      cases hrest : s ++ rest with
      | nil => rfl
      | cons d more =>
        rw [hrest, startsBlank, Bool.or_eq_false_iff] at hblank
        exact hblank.1
    simp only [List.mem_cons, List.not_mem_nil, or_false] at hspecial
    generalize s ++ rest = t at hblank hhead
    rcases hspecial with rfl | rfl | rfl <;> simp [Lexer.startsPlain, hblank, hhead]
  · have hblank : isBlank c = false := by
      rw [isBlank_eq_of_isWritable (hs.writable c List.mem_cons_self), beq_eq_false_iff_ne]
      rintro rfl
      exact hs.head rfl
    have hindicators : ∀ d ∈ indicators, d ∈ closedIndicators ∨ d ∈ ['-', '?', ':'] :=
      List.all_iff_forall_prop.1 (by decide)
    have hfree : c ∉ indicators := fun hc => (hindicators c hc).elim hnot hspecial
    simp [Lexer.startsPlain, hblank, hfree]

/-- Where a plain scalar starts, no other token does. -/
theorem token_plain {c : Char} {s : List Char} (hflow : x.inFlow = false) (hs : IsBare (c :: s))
    (hplace : 0 < x.cursor.column ∨ isKeyChar c) (rest : List Char) :
    x.token c (s ++ rest) = x.plain := by
  obtain ⟨hnot, happart, hstart⟩ := startsPlain_of_isBare hs rest
  have hmarker : ∀ mark, isKeyChar mark = false →
      (x.cursor.column == 0 && startsMarker mark (c :: (s ++ rest))) = false := by
    intro mark hmark
    rw [Bool.and_eq_false_imp, beq_iff_eq]
    intro hzero
    have hc : (c == mark) = false :=
      beq_eq_false_iff_ne.2 (ne_of_isKeyChar (hplace.resolve_left (by omega)) hmark)
    cases s ++ rest with
    | nil => rfl
    | cons d more => cases more <;> simp [startsMarker, hc]
  have hentry : ∀ d ∈ ['-', '?', ':'], (c == d && startsBlank (s ++ rest)) = false := by
    intro d hd
    rw [Bool.and_eq_false_imp, beq_iff_eq]
    exact happart d hd
  simp only [closedIndicators, List.mem_cons, List.not_mem_nil, or_false, not_or] at hnot
  simp only [token, hflow, hmarker '-' (by decide), hmarker '.' (by decide), hentry '-' (by simp),
    hentry '?' (by simp), hentry ':' (by simp), hstart, Bool.false_or]
  simp [hnot]

section
variable (h : Stands true ts x) (hcolumn : 0 < x.cursor.column) (hline : LineStart rest)
  {s : List Char}
include h hline

omit h hline in
theorem plain_eq {y : Lexer} {p : Plain} (hsave : x.saveCandidate = .ok y)
    (hread : plainFrom y.inFlow (y.indent + 1).toNat [] none y.cursor.toPlace y.cursor.rest =
      .ok p) :
    x.plain =
      .ok { y.push (.scalar .plain p.text) with cursor := p.cursor, keyAllowed := p.broken } := by
  rw [plain, hsave]
  simp only [bind, Except.bind, hread]
  rfl

theorem Stands.block_literal (hs : IsLiteral s)
    (htext : x.cursor.rest = '|' :: literalMarks s ++ '\n' :: (literalText true s ++ rest)) :
    ∃ y, x.block false = .ok y ∧ AtLine true (.scalar .literal s :: ts) rest y := by
  have hopened : (x.cursor.skip 1).rest =
      literalMarks s ++ '\n' :: (literalText true s ++ rest) := by
    rw [Cursor.skip, htext]
    rfl
  obtain ⟨cursor, hread, hedge, hrest⟩ := blockScalar_literal hs hline hopened
  have hindent : x.indent = 0 := h.indent
  have hstands : Stands true ts { x with candidate := none } :=
    ⟨h.tokens, h.count, h.indent, h.indents, h.outer, by simp⟩
  refine ⟨_, ?_, (hstands.push (.scalar .literal s) cursor true).atLine hline hrest hedge rfl⟩
  rw [block, h.dropCandidate]
  simp only [bind, Except.bind, hindent, hread]
  rfl

include hcolumn

theorem Stands.plain_text (hs : IsPlain s) (htext : x.cursor.rest = s ++ '\n' :: rest) :
    ∃ y, x.plain = .ok y ∧ AtLine true (.scalar .plain s :: ts) rest y := by
  obtain ⟨y, hsave, hy, hcursor⟩ := h.saveCandidate hcolumn
  have hindent : (y.indent + 1).toNat = 1 := by
    rw [hy.indent]
    rfl
  rw [← hcursor] at hcolumn htext
  have hread : plainFrom y.inFlow (y.indent + 1).toNat [] none y.cursor.toPlace y.cursor.rest =
      .ok ⟨s, ⟨(y.cursor.afterAll s).after '\n', rest⟩, true⟩ := by
    rw [hy.inFlow, hindent, htext, plainFrom_bare hs.toIsBare (fun _ _ => Or.inl hcolumn)
      (by omega), plainFrom_newline hline Nat.one_pos, List.reverse_reverse]
  refine ⟨_, plain_eq hsave hread, ?_⟩
  exact (hy.push (.scalar .plain s) ⟨(y.cursor.afterAll s).after '\n', rest⟩ true).atLine hline rfl
    (Place.column_after_break (by decide) _) rfl

theorem Stands.single_text (hs : IsSingle s)
    (htext : x.cursor.rest = '\'' :: (singleText false s ++ '\'' :: '\n' :: rest)) :
    ∃ y, x.single = .ok y ∧ AtLine true (.scalar .singleQuoted s :: ts) rest y := by
  obtain ⟨y, hsave, hy, hcursor⟩ := h.saveCandidate hcolumn
  have hskip : x.cursor.skip 1 =
      ⟨x.cursor.toPlace.after '\'', singleText false s ++ '\'' :: '\n' :: rest⟩ := by
    rw [Cursor.skip, htext]
    rfl
  have hinside := Place.column_after_pos (c := '\'') (by decide) x.cursor.toPlace
  obtain ⟨place, hread⟩ := singleFrom_text hs (.char hinside) [] ('\n' :: rest) (by simp)
  have hpushed := hy.push (.scalar .singleQuoted s) ⟨place, '\n' :: rest⟩ false
  refine ⟨_, ?_, hpushed.atLine_newline hline rfl⟩
  rw [single, hsave]
  simp only [bind, Except.bind, hcursor, hskip, hread]
  rfl

theorem Stands.double_text
    (htext : x.cursor.rest = '"' :: (s.flatMap doubleChar ++ '"' :: '\n' :: rest)) :
    ∃ y, x.double = .ok y ∧ AtLine true (.scalar .doubleQuoted s :: ts) rest y := by
  obtain ⟨y, hsave, hy, hcursor⟩ := h.saveCandidate hcolumn
  have hskip : x.cursor.skip 1 =
      ⟨x.cursor.toPlace.after '"', s.flatMap doubleChar ++ '"' :: '\n' :: rest⟩ := by
    rw [Cursor.skip, htext]
    rfl
  have hinside := Place.column_after_pos (c := '"') (by decide) x.cursor.toPlace
  obtain ⟨place, hread⟩ := doubleFrom_text [] none _ ('\n' :: rest) s onLine_none hinside
  have hpushed := hy.push (.scalar .doubleQuoted s) ⟨place, '\n' :: rest⟩ false
  refine ⟨_, ?_, hpushed.atLine_newline hline rfl⟩
  rw [double, hsave]
  simp only [bind, Except.bind, hcursor, hskip, hread]
  rfl

end

/-- What a printed scalar starts with is not passed over. -/
theorem exists_scalarText_cons (s rest : List Char) :
    ∃ c more, scalarText s ++ rest = c :: more ∧ isBreak c = false ∧ isBlank c = false ∧ c ≠ '#' ∧
      c ≠ byteOrderMark := by
  rcases styleOf_cases s with ⟨hstyle, hs⟩ | ⟨hstyle, -⟩ | hstyle | ⟨hstyle, -⟩
  · obtain ⟨c, s, rfl⟩ := List.exists_cons_of_ne_nil hs.ne_nil
    have hwritable := hs.writable c List.mem_cons_self
    refine ⟨c, s ++ '\n' :: rest, ?_, hs.unbroken c List.mem_cons_self, ?_, ?_, ?_⟩
    · rw [scalarText_plain hstyle, List.append_assoc]
      rfl
    · rw [isBlank_eq_of_isWritable hwritable, beq_eq_false_iff_ne]
      rintro rfl
      exact hs.head rfl
    · rintro rfl
      exact (startsPlain_of_isBare hs.toIsBare rest).1 (by decide)
    · rintro rfl
      exact absurd hwritable (by decide)
  · rw [scalarText_single hstyle]
    exact ⟨'\'', _, rfl, by decide⟩
  · rw [scalarText_double hstyle]
    exact ⟨'"', _, rfl, by decide⟩
  · rw [scalarText_literal hstyle]
    exact ⟨'|', _, rfl, by decide⟩

/-- A scalar is read up to the line behind it. -/
theorem Stands.token_scalar (h : Stands true ts x) (hcolumn : 0 < x.cursor.column)
    (hline : LineStart rest) (s : List Char) {c : Char} {more : List Char}
    (htext : scalarText s ++ rest = c :: more) (hcursor : x.cursor.rest = c :: more) :
    ∃ y, x.token c more = .ok y ∧ AtLine true (.scalar (styleOf s) s :: ts) rest y := by
  have hfirst := Place.column_beq_zero hcolumn
  rcases styleOf_cases s with ⟨hstyle, hs⟩ | ⟨hstyle, hs⟩ | hstyle | ⟨hstyle, hs⟩
  · rw [scalarText_plain hstyle, List.append_assoc, List.singleton_append] at htext
    obtain ⟨y, hread, hy⟩ := h.plain_text hcolumn hline hs (hcursor.trans htext.symm)
    obtain ⟨d, s, rfl⟩ := List.exists_cons_of_ne_nil hs.ne_nil
    obtain ⟨rfl, rfl⟩ := List.cons.inj htext
    exact ⟨y, (token_plain h.inFlow hs.toIsBare (Or.inl hcolumn) _).trans hread, hstyle ▸ hy⟩
  · rw [scalarText_single hstyle, List.append_assoc] at htext
    obtain ⟨y, hread, hy⟩ := h.single_text hcolumn hline hs (hcursor.trans htext.symm)
    obtain ⟨rfl, rfl⟩ := List.cons.inj htext
    refine ⟨y, ?_, hstyle ▸ hy⟩
    simp [token, hfirst, h.inFlow, hread]
  · rw [scalarText_double hstyle, List.append_assoc] at htext
    obtain ⟨y, hread, hy⟩ := h.double_text hcolumn hline (hcursor.trans htext.symm)
    obtain ⟨rfl, rfl⟩ := List.cons.inj htext
    refine ⟨y, ?_, hstyle ▸ hy⟩
    simp [token, hfirst, h.inFlow, hread]
  · rw [scalarText_literal hstyle, List.append_assoc] at htext
    obtain ⟨y, hread, hy⟩ := h.block_literal hline hs (hcursor.trans htext.symm)
    obtain ⟨rfl, rfl⟩ := List.cons.inj htext
    refine ⟨y, ?_, hstyle ▸ hy⟩
    simp [token, hfirst, h.inFlow, hread]

/-- A scalar behind a space is one step to the next line. -/
theorem Stands.step_scalar (h : Stands true ts x) (hline : LineStart rest) (s : List Char)
    (hcursor : x.cursor.rest = ' ' :: (scalarText s ++ rest)) :
    ∃ y, Reaches x 1 y ∧ AtLine true (.scalar (styleOf s) s :: ts) rest y := by
  obtain ⟨c, more, htext, hbreak, hblank, hcomment, hmark⟩ := exists_scalarText_cons s rest
  obtain ⟨hskip, -⟩ := h.skipToToken_eq
  rw [hcursor, skipFrom_space, htext, skipFrom_stop hbreak hblank hcomment hmark] at hskip
  have hcolumn := Place.column_after_pos (c := ' ') (by decide) x.cursor.toPlace
  refine h.step (by rw [hskip]) fun y hy hsettled => ?_
  have hplace : y.cursor = ⟨x.cursor.toPlace.after ' ', c :: more⟩ := hsettled.cursor.trans hskip
  refine hy.token_scalar ?_ hline s htext (by rw [hplace])
  rw [hplace]
  exact hcolumn

/-- The mark of an entry is one step. -/
theorem AtLine.step_entry {more : List Char} (h : AtLine true ts ('-' :: ' ' :: more) x) :
    ∃ y, Reaches x 1 y ∧ Stands true (.blockEntry :: ts) y ∧ y.cursor.rest = ' ' :: more := by
  refine h.toStands.step h.text fun y hy hsettled => ?_
  have hcolumn : y.cursor.column = 0 := by rw [hsettled.cursor, h.column]
  have hallowed : y.keyAllowed := by rw [hsettled.keyAllowed, h.allowed]
  have htext : y.cursor.rest = '-' :: ' ' :: more := by rw [hsettled.cursor, h.text]
  have hedge : ¬ y.indent < (y.cursor.column : Int) := by
    rw [hy.indent, hcolumn]
    decide
  have hopened : y.openBlock y.cursor.column none .blockSequenceStart = y := by
    simp [openBlock, hedge]
  have hstands : Stands true ts { y with candidate := none } :=
    ⟨hy.tokens, hy.count, hy.indent, hy.indents, hy.outer, by simp⟩
  refine ⟨_, ?_, hstands.push .blockEntry (y.cursor.skip 1) true, ?_⟩
  · have htoken : y.token '-' (' ' :: more) = y.blockEntry := by
      have hblank : startsBlank (' ' :: more) := by simp [startsBlank, isBlank]
      have hmarker : startsMarker '-' ('-' :: ' ' :: more) = false := by cases more <;> rfl
      have hdots : startsMarker '.' ('-' :: ' ' :: more) = false := by cases more <;> rfl
      simp [token, hmarker, hdots, hblank]
    rw [htoken, blockEntry, hallowed, hy.inFlow, hopened, hy.dropCandidate]
    rfl
  · show (y.cursor.skip 1).rest = _
    rw [Cursor.skip, htext]
    rfl

/-- Characters that start a token are not passed over. -/
theorem skipToToken_eq_self {c : Char} (hcursor : x.cursor.rest = c :: rest)
    (hbreak : isBreak c = false) (hblank : isBlank c = false) (hcomment : c ≠ '#')
    (hmark : c ≠ byteOrderMark) : x.skipToToken = x := by
  rw [skipToToken, hcursor, skipFrom_stop hbreak hblank hcomment hmark, ← hcursor]

theorem Stands.openFlow (h : Stands true ts x) (hcolumn : 0 < x.cursor.column)
    (hcursor : x.cursor.rest = '[' :: rest) :
    ∃ y k, x.token '[' rest = .ok y ∧ Stands true (.flowSequenceStart :: ts)
        { y with outer := [], candidate := k } ∧
      y.candidate = none ∧ y.outer = [k] ∧ y.cursor.rest = rest := by
  have hfirst := Place.column_beq_zero hcolumn
  obtain ⟨y, hsave, hy, hsame⟩ := h.saveCandidate hcolumn
  have hstands := hy.push .flowSequenceStart (y.cursor.skip 1) true
  refine ⟨{ y.mark .flowSequenceStart 1 with
      outer := y.candidate :: y.outer, candidate := none, keyAllowed := true }, y.candidate, ?_,
    ⟨hstands.tokens, hstands.count, hstands.indent, hstands.indents, rfl, hy.optional⟩, rfl, ?_, ?_⟩
  · have htoken : x.token '[' rest = x.openFlow .flowSequenceStart := by simp [token, hfirst]
    rw [htoken, Lexer.openFlow, hsave]
    rfl
  · show y.candidate :: y.outer = [y.candidate]
    rw [hy.outer]
  · show (y.cursor.skip 1).rest = rest
    rw [hsame, Cursor.skip, hcursor]
    rfl

theorem closeFlow_token {k : Option Candidate} (hnone : x.candidate = none) (houter : x.outer = [k])
    (rest : List Char) :
    x.token ']' rest =
      .ok { x.mark .flowSequenceEnd 1 with candidate := k, outer := [], keyAllowed := false } := by
  have htoken : x.token ']' rest = x.closeFlow .flowSequenceEnd := by
    have hmarker : ∀ mark, mark ≠ ']' → startsMarker mark (']' :: rest) = false := by
      intro mark hmark
      match rest with
      | [] => rfl
      | [_] => rfl
      | _ :: _ :: _ => simp [startsMarker, hmark.symm]
    simp [token, hmarker '-' (by decide), hmarker '.' (by decide)]
  have hdrop : x.dropCandidate = .ok x := by rw [Lexer.dropCandidate, hnone]
  rw [htoken, closeFlow, hdrop]
  simp only [bind, Except.bind, houter]
  rfl

/-- A list without entries is two steps to the next line. -/
theorem Stands.step_empty (h : Stands true ts x) (hline : LineStart rest)
    (hcursor : x.cursor.rest = " []\n".toList ++ rest) :
    ∃ y, Reaches x 2 y ∧ AtLine true (.flowSequenceEnd :: .flowSequenceStart :: ts) rest y := by
  have htext : " []\n".toList ++ rest = ' ' :: '[' :: ']' :: '\n' :: rest := rfl
  obtain ⟨hskip, -⟩ := h.skipToToken_eq
  rw [hcursor, htext, skipFrom_space, skipFrom_stop (by decide) (by decide) (by decide) (by decide)]
    at hskip
  have hcolumn := Place.column_after_pos (c := ' ') (by decide) x.cursor.toPlace
  obtain ⟨y, hreach, k, hstands, hcandidate, houter, hrest⟩ :
      ∃ y, Reaches x 1 y ∧ ∃ k, Stands true (.flowSequenceStart :: ts)
          { y with outer := [], candidate := k } ∧
        y.candidate = none ∧ y.outer = [k] ∧ y.cursor.rest = ']' :: '\n' :: rest := by
    refine h.step (by rw [hskip]) fun y hy hsettled => ?_
    have hplace : y.cursor = ⟨x.cursor.toPlace.after ' ', '[' :: ']' :: '\n' :: rest⟩ :=
      hsettled.cursor.trans hskip
    obtain ⟨z, k, hz, hstands⟩ := hy.openFlow (by rw [hplace]; exact hcolumn) (by rw [hplace])
    exact ⟨z, hz, k, hstands⟩
  -- Inside the brackets the lexer does not stand as it does elsewhere, so this step is followed here.
  have hself := skipToToken_eq_self hrest (by decide) (by decide) (by decide) (by decide)
  have hflow : y.inFlow = true := by
    rw [Lexer.inFlow, houter]
    rfl
  have hsettle : y.skipToToken.dropStale = .ok y := by
    rw [hself, dropStale, hcandidate, refresh, ← hcandidate]
    rfl
  have hunroll : y.unroll y.cursor.column = y := by rw [Lexer.unroll, hflow, if_pos rfl]
  have hpushed := hstands.push .flowSequenceEnd (y.cursor.skip 1) false
  refine ⟨{ y.mark .flowSequenceEnd 1 with candidate := k, outer := [], keyAllowed := false },
    hreach.trans (n := 1) fun fuel => ?_, ?_⟩
  · rw [run, hsettle]
    simp only [bind, Except.bind, hunroll, hrest, closeFlow_token hcandidate houter]
  · refine hpushed.atLine_newline hline ?_
    show (y.cursor.skip 1).rest = _
    rw [Cursor.skip, hrest]
    rfl

/-! ## Keys -/

def opened (inside : Bool) (ts : List Token) : List Token :=
  if inside then ts else .blockMappingStart :: ts

structure BehindKey (inside : Bool) (ts : List Token) (name rest : List Char) (x : Lexer) :
    Prop where
  stands : Stands inside (.scalar .plain name :: ts) { x with candidate := none }
  text : x.cursor.rest = ':' :: rest
  column : 0 < x.cursor.column
  candidate : ∃ k, x.candidate = some k ∧ k.number = ts.length ∧ k.place.column = 0 ∧
    k.place.line = x.cursor.line ∧ x.cursor.offset ≤ k.place.offset + keyLimit

theorem AtLine.step_name {inside : Bool} {name : List Char} (hname : IsKey name)
    (hblank : startsBlank rest) (h : AtLine inside ts (name ++ ':' :: rest) x) :
    ∃ y, Reaches x 1 y ∧ BehindKey inside ts name rest y := by
  obtain ⟨c, more, rfl⟩ := List.exists_cons_of_ne_nil hname.ne_nil
  have hbare := hname.isBare
  have hc : isKeyChar c := hname.chars c List.mem_cons_self
  refine h.toStands.step h.text fun y hy hsettled => ?_
  have hcolumn : y.cursor.column = 0 := by rw [hsettled.cursor, h.column]
  have hallowed : y.keyAllowed := by rw [hsettled.keyAllowed, h.allowed]
  have htext : y.cursor.rest = c :: more ++ ':' :: rest := by rw [hsettled.cursor, h.text]
  have hread : plainFrom y.inFlow (y.indent + 1).toNat [] none y.cursor.toPlace y.cursor.rest =
      .ok ⟨c :: more, ⟨y.cursor.afterAll (c :: more), ':' :: rest⟩, false⟩ := by
    have hindent : (y.indent + 1).toNat ≤ y.cursor.column + 1 := by
      have hle := hy.indent_le y.cursor.column
      omega
    rw [hy.inFlow, htext, plainFrom_bare hbare (by simpa using Or.inr hc) hindent,
      plainFrom_colon hblank, List.reverse_reverse]
  have hpushed : Stands inside (.scalar .plain (c :: more) :: ts) _ :=
    ({ hy with optional := by simp } : Stands inside ts { y with candidate := none }).push
      (.scalar .plain (c :: more)) ⟨y.cursor.afterAll (c :: more), ':' :: rest⟩ false
  have hlength := hname.short
  have hplace := Place.column_afterAll hbare.unbroken y.cursor.toPlace
  have hoffset := Place.offset_afterAll_le (c :: more) y.cursor.toPlace
  refine ⟨{ y.push (.scalar .plain (c :: more)) with
      cursor := ⟨y.cursor.afterAll (c :: more), ':' :: rest⟩
      candidate := some ⟨y.count, y.indent == y.cursor.column, y.cursor.toPlace⟩
      keyAllowed := false }, ?_, hpushed, rfl, ?_, _, rfl, hy.count, hcolumn,
    (Place.line_afterAll hbare.unbroken y.cursor.toPlace).symm, ?_⟩
  · exact (token_plain hy.inFlow hbare (Or.inr hc) _).trans
      (plain_eq (hy.saveCandidate_eq hallowed) hread)
  · show 0 < (y.cursor.afterAll (c :: more)).column
    rw [hplace, List.length_cons]
    omega
  · show (y.cursor.afterAll (c :: more)).offset ≤ y.cursor.offset + keyLimit
    have hlimit : keyLimit = 1024 := rfl
    omega

theorem tokens_insertAt (front : List Token) {back : List Token} (htokens : x.tokens = front ++ back)
    (hcount : x.count = x.tokens.length) (t : Token) :
    (x.insertAt back.length t).tokens = front ++ t :: back := by
  have hlater : x.count - back.length = front.length := by
    rw [hcount, htokens, List.length_append]
    omega
  rw [insertAt, hlater, htokens, List.take_left, List.drop_left]

/-- The token of a key is put in front of it, and before the first key the mapping is opened. -/
theorem Stands.open_key {inside : Bool} {scalar : Token} (h : Stands inside (scalar :: ts) x) :
    Stands true (scalar :: .key :: opened inside ts)
      ((x.insertAt ts.length .key).openBlock 0 (some ts.length) .blockMappingStart) := by
  have hkey : (x.insertAt ts.length .key).tokens = [scalar] ++ .key :: ts :=
    tokens_insertAt [scalar] h.tokens (h.count.trans (by rw [h.tokens])) .key
  have hcount : (x.insertAt ts.length .key).count = ts.length + 2 := by
    show x.count + 1 = _
    rw [h.count, List.length_cons]
  have hflow : (x.insertAt ts.length .key).inFlow = false := h.inFlow
  have hindent : (x.insertAt ts.length .key).indent = if inside then 0 else -1 := h.indent
  cases inside with
  | true =>
    have hclosed : ¬ (x.insertAt ts.length .key).indent < (0 : Nat) := by
      rw [hindent]
      decide
    have hsame : (x.insertAt ts.length .key).openBlock 0 (some ts.length) .blockMappingStart =
        x.insertAt ts.length .key := by
      rw [openBlock, hflow, Bool.not_false, Bool.true_and, if_neg (by simpa using hclosed)]
    rw [hsame]
    exact ⟨hkey, hcount, h.indent, h.indents, h.outer, h.optional⟩
  | false =>
    have hopen : (x.insertAt ts.length .key).indent < (0 : Nat) := by
      rw [hindent]
      decide
    have htokens : ((x.insertAt ts.length .key).insertAt ts.length .blockMappingStart).tokens =
        [scalar, .key] ++ .blockMappingStart :: ts :=
      tokens_insertAt [scalar, .key] hkey (by rw [hcount, hkey]; simp) .blockMappingStart
    rw [openBlock, hflow, Bool.not_false, Bool.true_and, if_pos (by simpa using hopen)]
    refine ⟨htokens, ?_, rfl, ?_, h.outer, h.optional⟩
    · show (x.insertAt ts.length .key).count + 1 = _
      rw [hcount]
      simp [opened]
    · show (x.insertAt ts.length .key).indent :: (x.insertAt ts.length .key).indents = [-1]
      rw [hindent]
      exact congrArg _ h.indents

theorem value_eq {k : Candidate} (hk : x.candidate = some k) (hnumber : k.number = ts.length)
    (hedge : k.place.column = 0) :
    x.value = .ok
      { ((({ x with candidate := none } : Lexer).insertAt ts.length .key).openBlock 0
          (some ts.length) .blockMappingStart).push .value with
        cursor := x.cursor.skip 1
        keyAllowed := false } := by
  rw [value, hk]
  simp only [hnumber, hedge, openBlock]
  by_cases hopen : (!x.inFlow && decide (x.indent < (0 : Nat))) = true
  · rw [if_pos (by exact hopen), if_pos (by exact hopen)]
    rfl
  · rw [if_neg (by exact hopen), if_neg (by exact hopen)]
    rfl

theorem BehindKey.step_colon {inside : Bool} {name : List Char} (hblank : startsBlank rest)
    (h : BehindKey inside ts name rest x) :
    ∃ y, Reaches x 1 y ∧ Stands true (.value :: .scalar .plain name :: .key :: opened inside ts) y ∧
      y.cursor.rest = rest := by
  obtain ⟨k, hk, hnumber, hedge, hline, hoffset⟩ := h.candidate
  have hself := skipToToken_eq_self h.text (by decide) (by decide) (by decide) (by decide)
  -- The name is on this line and short, so the key is not stale.
  have hfresh : (decide (k.place.line < x.cursor.line) ||
      decide (k.place.offset + keyLimit < x.cursor.offset)) = false := by
    simp only [Bool.or_eq_false_iff, decide_eq_false_iff_not]
    omega
  have hsettle : x.skipToToken.dropStale = .ok x := by
    rw [hself, dropStale, hk, refresh, hfresh, ← hk]
    rfl
  have hunroll : x.unroll x.cursor.column = x := unroll_eq_self (h.stands.indent_le _)
  have hfirst := Place.column_beq_zero h.column
  have hopened := h.stands.open_key
  have hpushed := hopened.push .value (x.cursor.skip 1) false
  refine ⟨_, fun fuel => ?_, hpushed, ?_⟩
  · have htoken : x.token ':' rest = x.value := by simp [token, hfirst, hblank]
    rw [run, hsettle]
    simp only [bind, Except.bind, hunroll, h.text, htoken, value_eq hk hnumber hedge]
  · show (x.cursor.skip 1).rest = rest
    rw [Cursor.skip, h.text]
    rfl

/-- At the end of the text the mapping is closed. -/
theorem AtLine.run_end (h : AtLine true ts [] x) (fuel : Nat) :
    run (fuel + 1) x = .ok (ts.reverse ++ [.blockEnd, .streamEnd]) := by
  obtain ⟨y, hsettle, hy, hsettled⟩ := h.toStands.settle
  have hrest : y.cursor.rest = [] := by rw [hsettled.cursor, h.text]
  have hcolumn : y.cursor.column = 0 := by rw [hsettled.cursor, h.column]
  have hend : y.atEnd = y := by rw [atEnd, if_pos hcolumn]
  have hclose : y.unroll (-1) = { y.push .blockEnd with indent := -1, indents := [] } := by
    have hindent : (-1 : Int) < y.indent := by
      rw [hy.indent]
      decide
    rw [Lexer.unroll, hy.inFlow, hy.indents]
    simp [closeBlocks, hindent]
  have hstands : Stands false (.blockEnd :: ts)
      { y.push .blockEnd with indent := -1, indents := [] } :=
    ⟨congrArg _ hy.tokens, congrArg (· + 1) hy.count, rfl, rfl, hy.outer, hy.optional⟩
  rw [run, hsettle]
  simp only [bind, Except.bind, unroll_eq_self (hy.indent_le _), hrest, hend, endStream, hclose,
    hstands.dropCandidate]
  show Except.ok (Token.streamEnd :: .blockEnd :: y.tokens).reverse = _
  rw [hy.tokens]
  simp

end
end Lexer

end AgentPrompt.Yaml
