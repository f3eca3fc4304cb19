import AgentPrompt.Proofs.Yaml.Bare
import Mathlib.Data.List.TakeWhile

/-! A literal keeps its lines as they are, so only its edges need care: the first line must show the
indentation or the header must tell it, and the header tells how many line breaks the text ends
with. -/
namespace AgentPrompt.Yaml

/-- A text with a line feed for its last line, if the line is not ended. `fresh` tells that a line
begins. -/
def closed (fresh : Bool) : List Char → List Char
  | [] => if fresh then [] else ['\n']
  | c :: rest => c :: closed (isBreak c) rest

theorem closed_eq (fresh : Bool) (s : List Char) :
    closed fresh s = s ++ if (s.getLast?.map isBreak).getD fresh then [] else ['\n'] := by
  induction s generalizing fresh with
  | nil => rfl
  | cons c s ih =>
    rw [closed, ih, List.getLast?_cons, List.cons_append]
    cases s.getLast? <;> rfl

/-! ## Lines -/

section
variable {rest : List Char}

/-- The reader stands behind the indentation of the next line of a literal, or behind the literal. -/
inductive InLiteral (rest : List Char) : List Char → Cursor → Prop
  | done {c : Cursor} (column : c.column = 0) (text : c.rest = rest) : InLiteral rest [] c
  | line {t : List Char} {c : Cursor} (head : ∀ d ∈ t.head?, isBreak d = false) (ne_nil : t ≠ [])
      (column : c.column = 2) (text : c.rest = literalText false t ++ rest) : InLiteral rest t c

theorem literalText_break {c : Char} (h : Kept c) (hbreak : isBreak c) (fresh : Bool)
    (s : List Char) : literalText fresh (c :: s) = c :: literalText true s := by
  rw [literalText, isAnyBreak_eq_of_kept h, if_pos hbreak]

theorem literalText_char {c : Char} (h : Kept c) (hbreak : isBreak c = false) (fresh : Bool)
    (s : List Char) :
    literalText fresh (c :: s) =
      (if fresh then indentation else []) ++ literalText false (c :: s) := by
  have hany : ¬ isAnyBreak c := by
    rw [isAnyBreak_eq_of_kept h, hbreak]
    exact Bool.false_ne_true
  rw [literalText, literalText, if_neg hany, if_neg hany]
  rfl

section
variable {given : Option Nat} {breaks : List Char} {widest : Nat} {place : Place}

theorem blockBreaks_break {c : Char} (hc : isBreak c) (hcolumn : place.column = 0) :
    blockBreaks given breaks widest place (c :: rest) =
      blockBreaks given (c :: breaks) widest (place.after c) rest := by
  have hspace : c ≠ ' ' := by
    rintro rfl
    exact absurd hc (by decide)
  have htab : c ≠ '\t' := by
    rintro rfl
    exact absurd hc (by decide)
  rw [blockBreaks]
  simp [hspace, htab, hc, hcolumn]

theorem blockBreaks_done (h : LineStart rest) :
    blockBreaks given breaks widest place rest =
      .ok (breaks.reverse, max widest place.column, ⟨place, rest⟩) := by
  cases rest with
  | nil => rw [blockBreaks]
  | cons c rest =>
    obtain ⟨hbreak, hblank, -, -⟩ := h.head
    simp only [isBlank, Bool.or_eq_false_iff, beq_eq_false_iff_ne] at hblank
    rw [blockBreaks]
    simp [hbreak, hblank]

variable (given breaks widest)

/-- The indentation is told by the header, or the line shows it. -/
theorem blockBreaks_indentation {c : Char} (rest : List Char) (hgiven : given = some 2 ∨ given = none ∧ c ≠ ' ')
    (hwritable : isWritable c) (hbreak : isBreak c = false) (hcolumn : place.column = 0) :
    blockBreaks given breaks widest place (indentation ++ c :: rest) =
      .ok (breaks.reverse, max widest 2, ⟨place.afterAll indentation, c :: rest⟩) := by
  have hspace : isBreak ' ' = false := by decide
  have hone : (place.after ' ').column = 1 := by
    rw [Place.column_after hspace, hcolumn]
  have htwo : ((place.after ' ').after ' ').column = 2 := by
    rw [Place.column_after hspace, hone]
  have htab : c ≠ '\t' := by
    rintro rfl
    exact absurd hwritable (by decide)
  rw [indentation, List.cons_append, List.cons_append, List.nil_append, blockBreaks, blockBreaks,
    blockBreaks]
  rcases hgiven with rfl | ⟨rfl, hc⟩
  · simp [hcolumn, hone, htwo, hbreak, Place.afterAll]
  · simp [htwo, hbreak, htab, hc, Place.afterAll]

/-- The indentation of a line that is not empty is passed. -/
theorem exists_blockBreaks_line {c : Char} (s : List Char) (hwritable : isWritable c)
    (hbreak : isBreak c = false) (hshown : given = some 2 ∨ given = none ∧ c ≠ ' ')
    (hcolumn : place.column = 0) :
    ∃ cursor, blockBreaks given breaks widest place (literalText true (c :: s) ++ rest) =
        .ok (breaks.reverse, max widest 2, cursor) ∧ InLiteral rest (c :: s) cursor := by
  have hkept := kept_of_isWritable hwritable
  have htext : literalText false (c :: s) ++ rest = c :: (literalText false s ++ rest) := by
    rw [literalText, isAnyBreak_eq_of_kept hkept, hbreak]
    rfl
  have htwo : (place.afterAll indentation).column = 2 := by
    rw [Place.column_afterAll isBreak_indentation, hcolumn]
    rfl
  refine ⟨⟨place.afterAll indentation, c :: (literalText false s ++ rest)⟩, ?_, ?_⟩
  · rw [literalText_char hkept hbreak, if_pos rfl, List.append_assoc, htext,
      blockBreaks_indentation given breaks widest _ hshown hwritable hbreak hcolumn]
  · exact .line (by simpa using hbreak) (by simp) htwo htext.symm

/-- The line breaks in front of a line are passed together with its indentation. -/
theorem blockBreaks_text {s : List Char} (hs : ∀ c ∈ s, isWritable c) (hrest : LineStart rest)
    (hgiven : given = some 2 ∨ given = none ∧ ∃ c ∈ s.head?, isBreak c = false ∧ c ≠ ' ')
    (hcolumn : place.column = 0) :
    ∃ widest' cursor, blockBreaks given breaks widest place (literalText true s ++ rest) =
        .ok (breaks.reverse ++ s.takeWhile isBreak, widest', cursor) ∧
      InLiteral rest (s.dropWhile isBreak) cursor ∧ (given = none → widest' = max widest 2) := by
  induction s generalizing breaks place with
  | nil =>
    refine ⟨max widest place.column, ⟨place, rest⟩, ?_, .done hcolumn rfl, fun hnone => ?_⟩
    · rw [List.takeWhile_nil, List.append_nil]
      exact blockBreaks_done hrest
    · rcases hgiven with rfl | ⟨-, c, hc, -⟩
      · cases hnone
      · cases hc
  | cons c s ih =>
    obtain ⟨hwritable, hwritables⟩ := List.forall_mem_cons.1 hs
    have hkept := kept_of_isWritable hwritable
    by_cases hbreak : isBreak c
    -- A text that begins with a break has its indentation told.
    · have htold : given = some 2 := by
        rcases hgiven with htold | ⟨-, d, hd, hfalse, -⟩
        · exact htold
        · obtain rfl : c = d := by simpa using hd
          rw [hbreak] at hfalse
          cases hfalse
      obtain ⟨widest', cursor, hread, hin, hnone⟩ :=
        ih (c :: breaks) hwritables (Or.inl htold) (Place.column_after_break hbreak place)
      refine ⟨widest', cursor, ?_, ?_, hnone⟩
      · rw [literalText_break hkept hbreak, List.cons_append, blockBreaks_break hbreak hcolumn,
          hread, List.takeWhile_cons, if_pos hbreak, List.reverse_cons, List.append_assoc,
          List.singleton_append]
      · rwa [List.dropWhile_cons, if_pos hbreak]
    · rw [Bool.not_eq_true] at hbreak
      have hshown : given = some 2 ∨ given = none ∧ c ≠ ' ' := by
        rcases hgiven with htold | ⟨hnone, d, hd, -, hne⟩
        · exact Or.inl htold
        · obtain rfl : c = d := by simpa using hd
          exact Or.inr ⟨hnone, hne⟩
      obtain ⟨cursor, hread, hin⟩ :=
        exists_blockBreaks_line given breaks widest s hwritable hbreak hshown hcolumn
      have hstop : ¬ isBreak c := by simp [hbreak]
      refine ⟨_, cursor, ?_, ?_, fun _ => rfl⟩
      · rw [hread, List.takeWhile_cons, if_neg hstop, List.append_nil]
      · rwa [List.dropWhile_cons, if_neg hstop]

end

theorem literalText_append {a : List Char} (h : ∀ c ∈ a, Kept c ∧ isBreak c = false)
    (b : List Char) : literalText false (a ++ b) = a ++ literalText false b := by
  induction a with
  | nil => rfl
  | cons c a ih =>
    obtain ⟨⟨hkept, hbreak⟩, ha⟩ := List.forall_mem_cons.1 h
    rw [List.cons_append, literalText, isAnyBreak_eq_of_kept hkept, hbreak, ih ha]
    rfl

theorem closed_append {a : List Char} (h : ∀ c ∈ a, isBreak c = false) (ha : a ≠ [])
    (fresh : Bool) (b : List Char) : closed fresh (a ++ b) = a ++ closed false b := by
  induction a generalizing fresh with
  | nil => exact absurd rfl ha
  | cons c a ih =>
    obtain ⟨hc, hrest⟩ := List.forall_mem_cons.1 h
    cases a with
    | nil => simp [closed, hc]
    | cons d a =>
      rw [List.cons_append, closed, ih hrest (by simp)]
      rfl

theorem closed_takeWhile (s : List Char) :
    closed true s = s.takeWhile isBreak ++ closed true (s.dropWhile isBreak) := by
  induction s with
  | nil => rfl
  | cons c s ih =>
    by_cases hc : isBreak c
    · rw [closed, hc, ih, List.takeWhile_cons, if_pos hc, List.dropWhile_cons, if_pos hc,
        List.cons_append]
    · rw [List.takeWhile_cons, if_neg hc, List.dropWhile_cons, if_neg hc, List.nil_append]

/-- A line of a literal with the break that ends it. The last line gets one if it has none. -/
theorem exists_line {t : List Char} (hne : t ≠ []) (hhead : ∀ c ∈ t.head?, isBreak c = false)
    (ht : ∀ c ∈ t, isWritable c) :
    ∃ content b s, content ≠ [] ∧ (∀ c ∈ content, isBreak c = false) ∧ isBreak b ∧
      literalText false t = content ++ b :: literalText true s ∧
      closed true t = content ++ b :: closed true s ∧ s.length < t.length ∧
      ∀ c ∈ s, isWritable c := by
  have hsplit := List.takeWhile_append_dropWhile (p := fun c => !isBreak c) (l := t)
  have hcontent : ∀ c ∈ t.takeWhile fun c => !isBreak c, isBreak c = false := by
    intro c hc
    simpa using List.mem_takeWhile_imp hc
  have hkept : ∀ c ∈ t.takeWhile fun c => !isBreak c, Kept c ∧ isBreak c = false := fun c hc =>
    ⟨kept_of_isWritable (ht c (List.takeWhile_subset _ hc)), hcontent c hc⟩
  have hstart : (t.takeWhile fun c => !isBreak c) ≠ [] := by
    cases t with
    | nil => exact absurd rfl hne
    | cons c t => simp [hhead c rfl]
  have htext := literalText_append hkept (t.dropWhile fun c => !isBreak c)
  have hclosed := closed_append hcontent hstart true (t.dropWhile fun c => !isBreak c)
  rw [hsplit] at htext hclosed
  refine ⟨t.takeWhile fun c => !isBreak c, ?_⟩
  cases hrest : t.dropWhile fun c => !isBreak c with
  | nil =>
    rw [hrest] at htext hclosed
    exact ⟨'\n', [], hstart, hcontent, by decide, htext, hclosed, List.length_pos_iff.2 hne, by simp⟩
  | cons b s =>
    have hb : isBreak b := by
      have hhead := List.head?_dropWhile_not (fun c => !isBreak c) t
      rw [hrest] at hhead
      simpa using hhead
    have hmem : ∀ c ∈ b :: s, c ∈ t := fun c hc => by
      rw [← hsplit, hrest]
      exact List.mem_append_right _ hc
    have hlength := congrArg List.length hsplit
    rw [hrest, List.length_append, List.length_cons] at hlength
    have hkeptb := kept_of_isWritable (ht b (hmem b List.mem_cons_self))
    rw [hrest, literalText_break hkeptb hb] at htext
    rw [hrest, closed, hb] at hclosed
    exact ⟨b, s, hstart, hcontent, hb, htext, hclosed, by omega,
      fun c hc => ht c (hmem c (List.mem_cons_of_mem _ hc))⟩

/-- The parts of what was read of a literal: its lines without the last break, that break, and the
breaks of the empty lines since. -/
structure LinesRead (text ending breaks : List Char) : Prop where
  line : ∀ c ∈ text.head?, isBreak c = false
  first : ending = [] → text = []
  one : ending.length ≤ 1
  breaks : ∀ c ∈ ending ++ breaks, isBreak c

section
variable {text ending breaks : List Char} {blank : Bool}

variable (text ending breaks blank) in
/-- One line is read with the empty lines behind it. -/
theorem blockLines_line {content s : List Char} {b : Char} {c : Cursor} (hrest : LineStart rest)
    (hcontent : ∀ d ∈ content, isBreak d = false) (hb : isBreak b)
    (hs : ∀ d ∈ s, isWritable d) (hcolumn : c.column = 2)
    (htext : c.rest = content ++ b :: (literalText true s ++ rest)) (fuel : Nat) :
    ∃ blank' c', blockLines false 2 text ending blank breaks (fuel + 1) c =
        blockLines false 2 (content.reverse ++ (ending ++ breaks).reverse ++ text) [b] blank'
          (s.takeWhile isBreak) fuel c' ∧
      InLiteral rest (s.dropWhile isBreak) c' := by
  have hspan : c.span (fun x => !isBreak x) = (content, c.skip content.length) := by
    have htake : c.rest.takeWhile (fun x => !isBreak x) = content := by
      rw [htext, List.takeWhile_append_of_pos (by simpa using hcontent)]
      simp [hb]
    rw [Cursor.span, htake]
  have hdrop : (c.skip content.length).rest = b :: (literalText true s ++ rest) := by
    rw [Cursor.skip, htext, List.drop_left]
  have hhead : (c.skip content.length).head? = some b := by rw [Cursor.head?, hdrop, List.head?_cons]
  generalize c.skip content.length = c₁ at hspan hdrop hhead
  have hnext : c₁.next.rest = literalText true s ++ rest := by simp [Cursor.next, Cursor.skip, hdrop]
  have hplace : c₁.next.column = 0 := by
    simp [Cursor.next, Cursor.skip, hdrop, Place.afterAll, Place.column_after_break hb]
  obtain ⟨widest', c', hbreaks, hin, -⟩ :=
    blockBreaks_text (some 2) [] 0 hs hrest (Or.inl rfl) hplace
  have hinside : (c.column == 2 && !c.rest.isEmpty) = true := by
    rw [hcolumn, htext]
    simp
  refine ⟨(c.head?.map isBlank).getD false, c', ?_, hin⟩
  rw [blockLines, if_pos hinside]
  simp only [hspan, hhead, hnext, hbreaks, blockJoint, Bool.false_and, Bool.false_eq_true, if_false]
  rfl

theorem linesRead_line (text ending breaks : List Char) {content s : List Char} {b : Char}
    (hcontent : ∀ d ∈ content, isBreak d = false) (hb : isBreak b) (hne : content ≠ []) :
    LinesRead (content.reverse ++ (ending ++ breaks).reverse ++ text) [b] (s.takeWhile isBreak) := by
  refine ⟨fun c hc => ?_, by simp, by simp, ?_⟩
  · obtain ⟨d, more, hd⟩ := List.exists_cons_of_ne_nil (List.reverse_ne_nil_iff.2 hne)
    obtain rfl : d = c := by simpa [hd] using hc
    exact hcontent d (List.mem_reverse.1 (hd ▸ List.mem_cons_self))
  · rw [List.singleton_append]
    exact List.forall_mem_cons.2 ⟨hb, fun c hc => List.mem_takeWhile_imp hc⟩

variable (blank) in
/-- All lines of a literal are read, and the reader stops at the line behind it. -/
theorem blockLines_text {t : List Char} {c : Cursor} {fuel : Nat} (hrest : LineStart rest)
    (ht : ∀ d ∈ t, isWritable d) (hin : InLiteral rest t c) (hfuel : t.length ≤ fuel)
    (h : LinesRead text ending breaks) :
    ∃ text' ending' breaks' c', blockLines false 2 text ending blank breaks fuel c =
        .ok (text', ending', breaks', c') ∧
      LinesRead text' ending' breaks' ∧ c'.column = 0 ∧ c'.rest = rest ∧
      text'.reverse ++ ending' ++ breaks' = text.reverse ++ ending ++ breaks ++ closed true t := by
  -- Each line of the literal takes one unit of fuel and at least one character.
  induction fuel generalizing text ending breaks blank t c with
  | zero =>
    obtain rfl : t = [] := List.length_eq_zero_iff.1 (Nat.le_zero.1 hfuel)
    cases hin with
    | done column hc =>
      exact ⟨text, ending, breaks, c, by rw [blockLines], h, column, hc, by simp [closed]⟩
    | line _ ne_nil => exact absurd rfl ne_nil
  | succ fuel ih =>
    cases hin with
    | done column hc =>
      have hout : ¬ (c.column == 2 && !c.rest.isEmpty) := by simp [column]
      refine ⟨text, ending, breaks, c, ?_, h, column, hc, by simp [closed]⟩
      rw [blockLines, if_neg hout]
    | line head ne_nil column hc =>
      obtain ⟨content, b, s, hne, hcontent, hb, htext, hclosed, hlength, hs⟩ :=
        exists_line ne_nil head ht
      rw [htext, List.append_assoc, List.cons_append] at hc
      obtain ⟨blank', c', hstep, hin'⟩ :=
        blockLines_line text ending breaks blank hrest hcontent hb hs column hc fuel
      have hshort : (s.dropWhile isBreak).length ≤ fuel := by
        have hdrop := List.length_dropWhile_le isBreak s
        omega
      obtain ⟨text', ending', breaks', c'', hread, hlines, hcolumn, hend, heq⟩ :=
        ih blank' (fun d hd => hs d (List.dropWhile_subset _ hd)) hin' hshort
          (linesRead_line text ending breaks hcontent hb hne)
      refine ⟨text', ending', breaks', c'', hstep.trans hread, hlines, hcolumn, hend, ?_⟩
      rw [heq, hclosed, closed_takeWhile s]
      simp

end

/-! ## The header -/

def chompOf (s : List Char) : Chomp :=
  match s.reverse with
  | [] => .strip
  | [c] => if isBreak c then .keep else .strip
  | c :: d :: _ => if !isBreak c then .strip else if isBreak d then .keep else .clip

def chompMarks : Chomp → List Char
  | .strip => ['-']
  | .clip => []
  | .keep => ['+']

/-- Whether the header has to tell the indentation. -/
def hidesIndentation (s : List Char) : Bool :=
  (s.head?.map fun c => c == ' ' || isBreak c).getD false

theorem literalMarks_eq {s : List Char} (hs : ∀ c ∈ s, isWritable c) :
    literalMarks s = (if hidesIndentation s then ['2'] else []) ++ chompMarks (chompOf s) := by
  have hbreak : ∀ c ∈ s, isAnyBreak c = isBreak c := fun c hc =>
    isAnyBreak_eq_of_kept (kept_of_isWritable (hs c hc))
  have hopening : ((s.head?.map fun c => c == ' ' || isAnyBreak c).getD false) =
      hidesIndentation s := by
    cases s with
    | nil => rfl
    | cons c s => simp [hidesIndentation, hbreak c List.mem_cons_self]
  have hreverse : ∀ c ∈ s.reverse, isAnyBreak c = isBreak c := fun c hc =>
    hbreak c (List.mem_reverse.1 hc)
  rw [literalMarks, hopening, chompOf]
  congr 1
  generalize s.reverse = r at hreverse
  match r with
  | [] => rfl
  | [c] =>
    simp only [hreverse c (by simp)]
    cases isBreak c <;> rfl
  | c :: d :: _ =>
    simp only [hreverse c (by simp), hreverse d (by simp)]
    cases isBreak c <;> cases isBreak d <;> rfl

def toldIndent (s : List Char) : Option Nat :=
  if hidesIndentation s then some 2 else none

theorem blockHeader_marks (s rest : List Char) :
    blockHeader ((if hidesIndentation s then ['2'] else []) ++ chompMarks (chompOf s) ++
        '\n' :: rest) =
      .ok ({ chomp := chompOf s, increment := toldIndent s },
        ((if hidesIndentation s then ['2'] else []) ++ chompMarks (chompOf s)).length) := by
  rw [toldIndent]
  cases hidesIndentation s <;> cases chompOf s <;> rfl

theorem toldIndent_cases {s : List Char} (hne : s ≠ []) :
    toldIndent s = some 2 ∨ toldIndent s = none ∧ ∃ c ∈ s.head?, isBreak c = false ∧ c ≠ ' ' := by
  obtain ⟨c, s, rfl⟩ := List.exists_cons_of_ne_nil hne
  cases hhidden : hidesIndentation (c :: s) with
  | true => exact Or.inl (by rw [toldIndent, hhidden, if_pos rfl])
  | false =>
    refine Or.inr ⟨by rw [toldIndent, hhidden, if_neg Bool.false_ne_true], c, rfl, ?_⟩
    simpa [hidesIndentation, and_comm] using hhidden

/-- The lines of a literal are indented by two, as the header tells or as the first line shows. -/
theorem toldIndent_getD {s : List Char} {widest : Nat} (h : toldIndent s = none → widest = 2) :
    (toldIndent s).getD (max (max widest ((0 : Int) + 1).toNat) 1) = 2 := by
  cases htold : toldIndent s with
  | some n =>
    rw [toldIndent] at htold
    split at htold
    · exact (Option.some.inj htold).symm
    · cases htold
  | none =>
    rw [h htold]
    rfl

/-! ## The end of the text -/

theorem LinesRead.text_eq {text ending breaks : List Char} (h : LinesRead text ending breaks) :
    (text.reverse ++ ending ++ breaks).reverse.dropWhile isBreak = text := by
  have hends : ∀ c ∈ (ending ++ breaks).reverse, isBreak c := fun c hc =>
    h.breaks c (List.mem_reverse.1 hc)
  rw [List.append_assoc, List.reverse_append, List.reverse_reverse,
    List.dropWhile_append_of_pos hends]
  cases text with
  | nil => rfl
  | cons c text => rw [List.dropWhile_cons, if_neg (by simp [h.line c rfl])]

def chomped (chomp : Chomp) (ending breaks : List Char) : List Char :=
  match chomp with
  | .strip => []
  | .clip => ending
  | .keep => ending ++ breaks

section
variable {text ending breaks : List Char} (h : LinesRead text ending breaks)
include h

/-- The break of a last line that had none is stripped. -/
theorem LinesRead.strip {c : Char} {r : List Char} (hc : isBreak c = false)
    (heq : text.reverse ++ ending ++ breaks = closed true (c :: r).reverse) :
    text.reverse = (c :: r).reverse := by
  have htext := h.text_eq
  have hclosed : closed true (c :: r).reverse = (c :: r).reverse ++ ['\n'] := by
    rw [closed_eq, List.getLast?_reverse, List.head?_cons, Option.map_some, Option.getD_some, hc]
    rfl
  rw [heq, hclosed, List.reverse_append, List.reverse_reverse, List.reverse_singleton,
    List.singleton_append, List.dropWhile_cons, if_pos (by decide), List.dropWhile_cons,
    if_neg (by simp [hc])] at htext
  rw [← htext]

/-- The break of the last line is kept, and there are no empty lines behind it. -/
theorem LinesRead.clip {c d : Char} {r : List Char} (hc : isBreak c) (hd : isBreak d = false)
    (heq : text.reverse ++ ending ++ breaks = (c :: d :: r).reverse) :
    text.reverse ++ ending = (c :: d :: r).reverse := by
  have htext := h.text_eq
  rw [heq, List.reverse_reverse, List.dropWhile_cons, if_pos hc, List.dropWhile_cons,
    if_neg (by simp [hd])] at htext
  cases ending with
  | nil =>
    rw [h.first rfl] at htext
    cases htext
  | cons e ending =>
    have hlength := h.one
    obtain rfl : ending = [] := by simpa using hlength
    obtain rfl : breaks = [] := by
      have hcount := congrArg List.length heq
      rw [← htext] at hcount
      simpa using hcount
    rwa [List.append_nil] at heq

theorem LinesRead.chomped_eq {s : List Char} (hs : s ≠ [])
    (heq : text.reverse ++ ending ++ breaks = closed true s) :
    text.reverse ++ chomped (chompOf s) ending breaks = s := by
  obtain ⟨r, rfl⟩ : ∃ r, s = r.reverse := ⟨s.reverse, (List.reverse_reverse s).symm⟩
  have hkeep : ∀ ending breaks, chomped .keep ending breaks = ending ++ breaks := fun _ _ => rfl
  have hclosed : ∀ c r, isBreak c → closed true (c :: r).reverse = (c :: r).reverse := by
    intro c r hc
    rw [closed_eq, List.getLast?_reverse, List.head?_cons, Option.map_some, Option.getD_some, hc,
      if_pos rfl, List.append_nil]
  rw [chompOf, List.reverse_reverse]
  match r with
  | [] => exact absurd rfl hs
  | [c] =>
    by_cases hc : isBreak c
    · simp only [hc, if_true, hkeep, ← List.append_assoc, heq, hclosed c [] hc]
    · rw [Bool.not_eq_true] at hc
      simp only [hc, Bool.false_eq_true, if_false, chomped, List.append_nil, h.strip hc heq]
  | c :: d :: r =>
    by_cases hc : isBreak c
    · rw [hclosed c _ hc] at heq
      by_cases hd : isBreak d
      · simp only [hc, hd, Bool.not_true, Bool.false_eq_true, if_false, if_true, hkeep,
          ← List.append_assoc, heq]
      · rw [Bool.not_eq_true] at hd
        simp only [hc, hd, Bool.not_true, Bool.false_eq_true, if_false, chomped, h.clip hc hd heq]
    · rw [Bool.not_eq_true] at hc
      simp only [hc, Bool.not_false, if_true, chomped, List.append_nil, h.strip hc heq]

end
end

/-! ## The whole scalar -/

theorem length_le_literalText (s : List Char) (fresh : Bool) :
    s.length ≤ (literalText fresh s).length := by
  induction s generalizing fresh with
  | nil => exact Nat.zero_le _
  | cons c s ih =>
    rw [literalText]
    split
    · exact Nat.succ_le_succ (ih true)
    · have htail := ih false
      simp only [List.length_append, List.length_cons]
      omega

theorem kept_literalText {s : List Char} (h : ∀ c ∈ s, isWritable c) (fresh : Bool) :
    ∀ d ∈ literalText fresh s, Kept d := by
  induction s generalizing fresh with
  | nil => cases fresh <;> exact kept_of_all (by decide)
  | cons c s ih =>
    obtain ⟨hc, hs⟩ := List.forall_mem_cons.1 h
    have hkept := kept_of_isWritable hc
    rw [literalText]
    split
    · exact List.forall_mem_cons.2 ⟨hkept, ih hs true⟩
    · rw [List.forall_mem_append]
      exact ⟨kept_indentation fresh, List.forall_mem_cons.2 ⟨hkept, ih hs false⟩⟩

/-- The header is passed up to the first line. -/
theorem exists_firstLine {marks more : List Char} {c : Cursor}
    (htext : c.rest = marks ++ '\n' :: more) :
    ∃ c₁ : Cursor, (c.skip marks.length).dropWhile isBlank = c₁ ∧ c₁.head? = some '\n' ∧
      startsBreak c₁.rest ∧ c₁.next.column = 0 ∧ c₁.next.rest = more := by
  have hskip : (c.skip marks.length).rest = '\n' :: more := by
    rw [Cursor.skip, htext, List.drop_left]
  generalize c.skip marks.length = c₀ at hskip
  have hdrop : (c₀.dropWhile isBlank).rest = '\n' :: more := by
    rw [Cursor.dropWhile, Cursor.span, hskip, List.takeWhile_cons, if_neg (by decide)]
    exact hskip
  have hbreak : isBreak '\n' := by decide
  refine ⟨_, rfl, ?_, ?_, ?_, ?_⟩
  · rw [Cursor.head?, hdrop, List.head?_cons]
  · rw [hdrop, startsBreak, hbreak]
  · rw [Cursor.next, Cursor.skip, hdrop]
    exact Place.column_after_break hbreak _
  · rw [Cursor.next, Cursor.skip, hdrop]
    rfl

/-- A literal is read back up to the line behind it. -/
theorem blockScalar_literal {s rest : List Char} {c : Cursor} (hs : IsLiteral s)
    (hrest : LineStart rest)
    (htext : c.rest = literalMarks s ++ '\n' :: (literalText true s ++ rest)) :
    ∃ c', blockScalar false 0 c = .ok (s, c') ∧ c'.column = 0 ∧ c'.rest = rest := by
  have hne : s ≠ [] := List.ne_nil_of_mem hs.lines
  rw [literalMarks_eq hs.writable] at htext
  have hheader := blockHeader_marks s (literalText true s ++ rest)
  rw [← htext] at hheader
  obtain ⟨c₁, hskip, hhead, hbreak, hcolumn, hmore⟩ := exists_firstLine htext
  obtain ⟨widest, c₂, hbreaks, hin, hwidest⟩ :=
    blockBreaks_text (toldIndent s) [] 0 hs.writable hrest (toldIndent_cases hne) hcolumn
  have hfuel : (s.dropWhile isBreak).length ≤ c₂.rest.length := by
    generalize s.dropWhile isBreak = t at hin
    cases hin with
    | done => exact Nat.zero_le _
    | line _ _ _ text =>
      rw [text, List.length_append]
      exact (length_le_literalText t false).trans (Nat.le_add_right _ _)
  have hread : LinesRead [] [] (s.takeWhile isBreak) :=
    ⟨by simp, fun _ => rfl, by simp, fun c hc => List.mem_takeWhile_imp hc⟩
  obtain ⟨text, ending, breaks, c₃, hlines, hresult, hend, hafter, heq⟩ :=
    blockLines_text false hrest
      (fun d hd => hs.writable d (List.dropWhile_subset _ hd)) hin hfuel hread
  have hincrement : ((toldIndent s).map fun n => (max (0 : Int) 0).toNat + n) = toldIndent s := by
    cases toldIndent s with
    | none => rfl
    | some n => simp
  have htail : text.reverse ++ chomped (chompOf s) ending breaks = s := by
    refine hresult.chomped_eq hne ?_
    rw [heq, closed_takeWhile s]
    rfl
  refine ⟨c₃, ?_, hend, hafter⟩
  have hcomment : ¬ c₁.head? = some '#' := by simp [hhead]
  rw [blockScalar, hheader]
  simp only [bind, Except.bind, hskip, if_neg hcomment, hbreak, Bool.not_true, Bool.false_eq_true,
    if_false, hincrement]
  rw [hmore, hbreaks]
  simp only [toldIndent_getD hwidest, List.reverse_nil, List.nil_append, hlines]
  -- What is left is the text with its chomped end.
  have hpair : (text.reverse ++ chomped (chompOf s) ending breaks, c₃) = (s, c₃) := by rw [htail]
  exact congrArg Except.ok hpair

end AgentPrompt.Yaml
