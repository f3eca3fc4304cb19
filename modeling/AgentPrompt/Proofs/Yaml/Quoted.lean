import AgentPrompt.Proofs.Yaml.Styles
import Mathlib.Algebra.Group.Nat.Defs

/-! Between two characters the reader of quoted text keeps a gap of blanks and breaks, so the
invariant of both readers speaks of what was read and of the gap together. -/
namespace AgentPrompt.Yaml

/-! ## Places -/

namespace Place

theorem column_after {c : Char} (h : isBreak c = false) (p : Place) :
    (p.after c).column = p.column + 1 := by
  simp [after, h]

theorem column_after_pos {c : Char} (h : isBreak c = false) (p : Place) : 0 < (p.after c).column := by
  rw [column_after h]
  omega

theorem column_after_break {c : Char} (h : isBreak c) (p : Place) : (p.after c).column = 0 := by
  simp [after, h]

theorem column_beq_zero {p : Place} (h : 0 < p.column) : (p.column == 0) = false := by
  rw [beq_eq_false_iff_ne]
  omega

theorem afterAll_cons (p : Place) (c : Char) (s : List Char) :
    p.afterAll (c :: s) = (p.after c).afterAll s :=
  rfl

theorem column_afterAll {s : List Char} (h : ∀ c ∈ s, isBreak c = false) (p : Place) :
    (p.afterAll s).column = p.column + s.length := by
  induction s generalizing p with
  | nil => rfl
  | cons c s ih =>
    obtain ⟨hc, hs⟩ := List.forall_mem_cons.1 h
    rw [afterAll_cons, ih hs, column_after hc, List.length_cons]
    omega

end Place

/-! ## Escapes -/

theorem hexDigit?_digitChar {n : Nat} (h : n < 16) :
    hexDigit? (Nat.digitChar n).toUpper = some n := by
  have hall : ∀ n < 16, hexDigit? (Nat.digitChar n).toUpper = some n := by decide
  exact hall n h

theorem isWritable_digitChar {n : Nat} (h : n < 16) :
    isWritable (Nat.digitChar n).toUpper ∧ isBreak (Nat.digitChar n).toUpper = false := by
  have hall : ∀ n < 16, isWritable (Nat.digitChar n).toUpper ∧
      isBreak (Nat.digitChar n).toUpper = false := by decide
  exact hall n h

theorem hexNumber?_concat (digits : List Char) (d : Char) :
    hexNumber? (digits ++ [d]) =
      (hexNumber? digits).bind fun n => (hexDigit? d).map (n * 16 + ·) := by
  simp only [hexNumber?, List.foldlM_append, List.foldlM_cons, List.foldlM_nil, bind_pure]
  rfl

theorem hexNumber?_capitalHex (n width : Nat) :
    hexNumber? (capitalHex n width) = some (n % 16 ^ width) := by
  induction width generalizing n with
  | zero => simp [capitalHex, hexNumber?, Nat.mod_one]
  | succ width ih =>
    have hdigit : n % 16 < 16 := Nat.mod_lt n (by decide)
    have hsplit : n % 16 ^ (width + 1) = n / 16 % 16 ^ width * 16 + n % 16 := by
      rw [Nat.pow_succ, Nat.mul_comm (16 ^ width) 16, Nat.mod_mul]
      omega
    rw [capitalHex, hexNumber?_concat, ih, hexDigit?_digitChar hdigit, hsplit]
    rfl

theorem codeEscape?_capitalHex {c : Char} {width : Nat} (h : c.toNat < 16 ^ width) :
    codeEscape? (capitalHex c.toNat width) = some c := by
  have hvalid : c.toNat.isValidChar := c.valid
  rw [codeEscape?, hexNumber?_capitalHex, Nat.mod_eq_of_lt h]
  exact dif_pos hvalid

theorem writable_capitalHex (n width : Nat) :
    ∀ d ∈ capitalHex n width, isWritable d ∧ isBreak d = false := by
  induction width generalizing n with
  | zero => simp [capitalHex]
  | succ width ih =>
    rw [capitalHex, List.forall_mem_append]
    refine ⟨ih (n / 16), ?_⟩
    rw [List.forall_mem_singleton]
    exact isWritable_digitChar (Nat.mod_lt n (by decide))

def numberedEscapes : List (Char × Nat) :=
  [('x', 2), ('u', 4)]

/-- How a character stands in a double-quoted scalar. -/
inductive Escaped (c : Char) : List Char → Prop
  | bare (writable : isWritable c) (unbroken : isBreak c = false) (quote : c ≠ '"')
      (escape : c ≠ '\\') : Escaped c [c]
  | short {e : Char} (writable : isWritable e) (unbroken : isBreak e = false)
      (letter : e ∉ ['x', 'u', 'U']) (escape : shortEscape? e = some c) : Escaped c ['\\', e]
  | numbered {letter : Char} {width : Nat} (form : (letter, width) ∈ numberedEscapes)
      (small : c.toNat < 16 ^ width) : Escaped c ('\\' :: letter :: capitalHex c.toNat width)

/-- Characters outside the basic plane need no escape. -/
theorem lt_of_not_bare {c : Char}
    (h : ¬ (isWritable c && !isAnyBreak c && c != '"' && c != '\\')) : c.toNat < 16 ^ 4 := by
  by_contra hlarge
  have hne : ∀ d : Char, d.toNat < 16 ^ 4 → c ≠ d := by
    rintro d hd rfl
    exact hlarge hd
  have hwritable : isWritable c := by
    simp only [isWritable, Bool.or_eq_true, decide_eq_true_eq]
    omega
  refine h ?_
  simp [hwritable, isAnyBreak, isBreak, lineSeparator, paragraphSeparator, hne]

theorem escaped_doubleChar (c : Char) : Escaped c (doubleChar c) := by
  unfold doubleChar
  split
  · rename_i h
    simp only [Bool.and_eq_true, Bool.not_eq_true', bne_iff_ne] at h
    obtain ⟨⟨⟨hwritable, hbreak⟩, hquote⟩, hescape⟩ := h
    rw [isAnyBreak_eq_of_kept (kept_of_isWritable hwritable)] at hbreak
    exact .bare hwritable hbreak hquote hescape
  · rename_i h
    split
    case h_15 =>
      split
      · rename_i hsmall
        exact .numbered (by decide) (by omega)
      · exact .numbered (by decide) (lt_of_not_bare h)
    all_goals exact .short (by decide) (by decide) (by decide) (by decide)

theorem writable_numbered {letter : Char} {width : Nat} (h : (letter, width) ∈ numberedEscapes)
    (n : Nat) : ∀ d ∈ '\\' :: letter :: capitalHex n width, isWritable d ∧ isBreak d = false := by
  have hletters : ∀ form ∈ numberedEscapes, isWritable form.1 ∧ isBreak form.1 = false := by
    decide
  refine List.forall_mem_cons.2 ⟨by decide, List.forall_mem_cons.2 ⟨hletters _ h, ?_⟩⟩
  exact writable_capitalHex n width

theorem Escaped.kept {c : Char} {t : List Char} (h : Escaped c t) : ∀ d ∈ t, Kept d := by
  have hmark : isWritable '\\' := by decide
  have hwritable : ∀ d ∈ t, isWritable d := by
    cases h with
    | bare writable => simpa using writable
    | short writable => simpa [hmark] using writable
    | numbered form => exact fun d hd => (writable_numbered form c.toNat d hd).1
  exact fun d hd => kept_of_isWritable (hwritable d hd)

/-! ## Reading between quotes -/

/-- What was read together with the gap behind it. -/
def pending (text : List Char) (gap : Option Gap) : List Char :=
  text.reverse ++ gapText gap

def OnLine (gap : Option Gap) : Prop :=
  ∀ g ∈ gap, g.broken = false

theorem onLine_none : OnLine none := by
  simp [OnLine]

theorem pending_blank {c : Char} (hc : isBreak c = false) {gap : Option Gap} (h : OnLine gap)
    (text : List Char) :
    OnLine (some ((gap.getD {}).add c)) ∧
      pending text (some ((gap.getD {}).add c)) = pending text gap ++ [c] := by
  cases gap with
  | none => simp [OnLine, pending, gapText, Gap.add, Gap.text, hc]
  | some g =>
    have hg : g.broken = false := h g rfl
    simp [OnLine, pending, gapText, Gap.add, Gap.text, hc, hg]

theorem pending_char (c : Char) (text : List Char) (gap : Option Gap) :
    pending (c :: (gapText gap).reverse ++ text) none = pending text gap ++ [c] := by
  simp [pending, gapText]

section
variable (text : List Char) (gap : Option Gap) (place : Place) (rest : List Char)

theorem doubleFrom_cons {c : Char} (h : c ≠ '\\') (hcolumn : 0 < place.column)
    (hbreak : isBreak c = false) :
    doubleFrom text gap place (c :: rest) =
      if isBlank c then doubleFrom text (some ((gap.getD {}).add c)) (place.after c) rest
      else if c == '"' then
        .ok (((gapText gap).reverse ++ text).reverse, ⟨place.after c, rest⟩)
      else doubleFrom (c :: (gapText gap).reverse ++ text) none (place.after c) rest := by
  have hfirst := Place.column_beq_zero hcolumn
  rw [doubleFrom]
  · simp [hbreak, hfirst]
  all_goals
    intros
    simp_all

theorem doubleFrom_short {e c : Char} (hletter : e ∉ ['x', 'u', 'U']) (hbreak : isBreak e = false)
    (h : shortEscape? e = some c) :
    doubleFrom text gap place ('\\' :: e :: rest) =
      doubleFrom (c :: (gapText gap).reverse ++ text) none (place.afterAll ['\\', e]) rest := by
  rw [doubleFrom]
  · simp [hbreak, h]
  all_goals
    intros
    simp_all

theorem doubleFrom_numbered {c letter : Char} {width : Nat}
    (hform : (letter, width) ∈ numberedEscapes) (h : c.toNat < 16 ^ width) :
    doubleFrom text gap place ('\\' :: letter :: capitalHex c.toNat width ++ rest) =
      doubleFrom (c :: (gapText gap).reverse ++ text) none
        (place.afterAll ('\\' :: letter :: capitalHex c.toNat width)) rest := by
  have hescape := codeEscape?_capitalHex h
  simp only [numberedEscapes, List.mem_cons, List.not_mem_nil, or_false, Prod.mk.injEq] at hform
  rcases hform with ⟨rfl, rfl⟩ | ⟨rfl, rfl⟩ <;>
  · simp only [capitalHex, List.cons_append, List.nil_append] at hescape ⊢
    simp only [doubleFrom, hescape, List.cons_append]

/-- One character is read from its escape. -/
theorem doubleFrom_escaped {c : Char} {t : List Char} (h : Escaped c t) (hgap : OnLine gap)
    (hcolumn : 0 < place.column) :
    ∃ text' gap' place', doubleFrom text gap place (t ++ rest) =
        doubleFrom text' gap' place' rest ∧ OnLine gap' ∧ 0 < place'.column ∧
      pending text' gap' = pending text gap ++ [c] := by
  have hmoved : ∀ s : List Char, (∀ d ∈ s, isBreak d = false) → 0 < (place.afterAll s).column := by
    intro s hs
    rw [Place.column_afterAll hs]
    omega
  have hmark : isBreak '\\' = false := by decide
  have hread := pending_char c text gap
  cases h with
  | bare writable unbroken quote escape =>
    rw [List.singleton_append, doubleFrom_cons text gap place rest escape hcolumn unbroken]
    have hafter := Place.column_after_pos unbroken place
    split
    · obtain ⟨hline, hpending⟩ := pending_blank unbroken hgap text
      exact ⟨_, _, _, rfl, hline, hafter, hpending⟩
    · rw [if_neg (by simpa using quote)]
      exact ⟨_, _, _, rfl, onLine_none, hafter, hread⟩
  | short writable unbroken letter escape =>
    refine ⟨_, _, _, doubleFrom_short text gap place rest letter unbroken escape, onLine_none, ?_,
      hread⟩
    exact hmoved _ (by simpa [hmark] using unbroken)
  | numbered form small =>
    refine ⟨_, _, _, doubleFrom_numbered text gap place rest form small, onLine_none, ?_, hread⟩
    exact hmoved _ fun d hd => (writable_numbered form c.toNat d hd).2

/-- A double-quoted text is read up to its closing quote. -/
theorem doubleFrom_text (s : List Char) (hgap : OnLine gap) (hcolumn : 0 < place.column) :
    ∃ place', doubleFrom text gap place (s.flatMap doubleChar ++ '"' :: rest) =
      .ok (pending text gap ++ s, ⟨place', rest⟩) := by
  induction s generalizing text gap place with
  | nil =>
    refine ⟨place.after '"', ?_⟩
    rw [List.flatMap_nil, List.nil_append,
      doubleFrom_cons text gap place rest (by decide) hcolumn (by decide)]
    simp [isBlank, pending]
  | cons c s ih =>
    obtain ⟨text', gap', place', hstep, hgap', hcolumn', hpending⟩ :=
      doubleFrom_escaped text gap place (s.flatMap doubleChar ++ '"' :: rest) (escaped_doubleChar c)
        hgap hcolumn
    obtain ⟨place'', hrest⟩ := ih text' gap' place' hgap' hcolumn'
    refine ⟨place'', ?_⟩
    rw [List.flatMap_cons, List.append_assoc, hstep, hrest, hpending]
    simp

end

/-! ## Single quotes -/

/-- A gap with line breaks that all stay what they are. -/
structure Broken (g : Gap) : Prop where
  broken : g.broken
  escaped : g.escaped = false
  kept : '\n' ∉ g.breaks

theorem Broken.text {g : Gap} (h : Broken g) : g.text = g.breaks.reverse := by
  have hfold : ∀ breaks : List Char, '\n' ∉ breaks → Gap.fold breaks = breaks := by
    intro breaks hb
    unfold Gap.fold
    split
    · simp at hb
    · simp at hb
    · rfl
  rw [Gap.text, h.broken, h.escaped]
  exact hfold _ (by simpa using h.kept)

theorem Broken.add_space {g : Gap} (h : Broken g) : g.add ' ' = g := by
  have hspace : isBreak ' ' = false := by decide
  simp [Gap.add, hspace, h.broken]

theorem broken_add {c : Char} (hc : isBreak c) (hne : c ≠ '\n') {gap : Option Gap}
    (h : ∀ g ∈ gap, Broken g) : Broken ((gap.getD {}).add c) := by
  cases gap with
  | none => exact ⟨by simp [Gap.add, hc], by simp [Gap.add, hc], by simp [Gap.add, hc, hne.symm]⟩
  | some g =>
    have hg : Broken g := h g rfl
    exact ⟨by simp [Gap.add, hc], by simp [Gap.add, hc, hg.escaped],
      by simp [Gap.add, hc, hne.symm, hg.kept]⟩

theorem pending_break {c : Char} (hc : isBreak c) (hne : c ≠ '\n') {gap : Option Gap}
    (h : ∀ g ∈ gap, Broken g) (text : List Char) :
    pending text (some ((gap.getD {}).add c)) = pending text gap ++ [c] := by
  rw [pending, pending, gapText, (broken_add hc hne h).text]
  cases gap with
  | none => simp [Gap.add, hc, gapText]
  | some g =>
    have hg : Broken g := h g rfl
    simp [Gap.add, hc, gapText, hg.text]

section
variable (text : List Char) (gap : Option Gap) (place : Place) (rest : List Char)

theorem singleFrom_cons {c : Char} (h : c ≠ '\'' ∨ rest.head? ≠ some '\'') :
    singleFrom text gap place (c :: rest) =
      if isBreak c || isBlank c then
        singleFrom text (some ((gap.getD {}).add c)) (place.after c) rest
      else if place.column == 0 && startsDocumentMarker (c :: rest) then
        .error .documentMarkInQuote
      else if c == '\'' then .ok (((gapText gap).reverse ++ text).reverse, ⟨place.after c, rest⟩)
      else singleFrom (c :: (gapText gap).reverse ++ text) none (place.after c) rest := by
  rw [singleFrom]
  · rfl
  · rintro more rfl rfl
    simp at h

theorem singleFrom_char {c : Char} (h : c ≠ '\'') (hbreak : isBreak c = false)
    (hblank : isBlank c = false) (hcolumn : 0 < place.column) :
    singleFrom text gap place (c :: rest) =
      singleFrom (c :: (gapText gap).reverse ++ text) none (place.after c) rest := by
  have hfirst := Place.column_beq_zero hcolumn
  rw [singleFrom_cons text gap place rest (Or.inl h)]
  simp [hbreak, hblank, hfirst, h]

theorem singleFrom_close (hrest : rest.head? ≠ some '\'') (hcolumn : 0 < place.column) :
    singleFrom text gap place ('\'' :: rest) =
      .ok (pending text gap, ⟨place.after '\'', rest⟩) := by
  have hquote : isBreak '\'' = false ∧ isBlank '\'' = false := by decide
  have hfirst := Place.column_beq_zero hcolumn
  rw [singleFrom_cons text gap place rest (Or.inr hrest)]
  simp [hquote, hfirst, pending]

theorem singleFrom_indentation {g : Gap} (h : Broken g) :
    singleFrom text (some g) place (indentation ++ rest) =
      singleFrom text (some g) (place.afterAll indentation) rest := by
  have hspace : (isBreak ' ' || isBlank ' ') = true := by decide
  have hquote : ∀ s : List Char, ' ' ≠ '\'' ∨ s.head? ≠ some '\'' := fun s => Or.inl (by decide)
  rw [indentation, List.cons_append, List.cons_append, List.nil_append,
    singleFrom_cons _ _ _ _ (hquote _), if_pos hspace, singleFrom_cons _ _ _ _ (hquote _),
    if_pos hspace]
  simp only [Option.getD_some, h.add_space]
  rfl

end

/-- Where the reader stands before the rest of a single-quoted text. -/
inductive InSingle : Bool → List Char → Option Gap → Place → Prop
  | line {s : List Char} {g : Gap} {place : Place} (broken : Broken g) (head : s.head? ≠ some ' ') :
    InSingle true s (some g) place
  | char {s : List Char} {place : Place} (column : 0 < place.column) : InSingle false s none place
  | blank {s : List Char} {gap : Option Gap} {place : Place} (onLine : OnLine gap)
      (head : ∀ c ∈ s.head?, isBreak c = false) (column : 0 < place.column) :
    InSingle false s gap place

theorem hasPair_tail {p q : Char → Bool} {c : Char} {s : List Char}
    (h : hasPair p q (c :: s) = false) : hasPair p q s = false := by
  cases s with
  | nil => rfl
  | cons d s =>
    rw [hasPair, Bool.or_eq_false_iff] at h
    exact h.2

theorem head_of_hasPair {p q : Char → Bool} {c : Char} {s : List Char}
    (h : hasPair p q (c :: s) = false) (hc : p c) : ∀ d ∈ s.head?, q d = false := by
  cases s with
  | nil => simp
  | cons d s =>
    rw [hasPair, Bool.or_eq_false_iff, hc, Bool.true_and] at h
    simpa using h.1

theorem IsSingle.tail {c : Char} {s : List Char} (h : IsSingle (c :: s)) : IsSingle s where
  writable := (List.forall_mem_cons.1 h.writable).2
  oneLine := fun hm => h.oneLine (List.mem_cons_of_mem _ hm)
  spaceAfterBreak := hasPair_tail h.spaceAfterBreak
  spaceBeforeBreak := hasPair_tail h.spaceBeforeBreak

/-- The indentation of a line is passed and leaves no trace. -/
theorem InSingle.enter {fresh : Bool} {s : List Char} {gap : Option Gap} {place : Place}
    (h : InSingle fresh s gap place) :
    ∃ place', 0 < place'.column ∧ ∀ text rest,
      singleFrom text gap place ((if fresh then indentation else []) ++ rest) =
        singleFrom text gap place' rest := by
  cases h with
  | line broken =>
    refine ⟨place.afterAll indentation, ?_, fun text rest => ?_⟩
    · rw [Place.column_afterAll isBreak_indentation]
      simp [indentation]
    · exact singleFrom_indentation text place rest broken
  | char column => exact ⟨place, column, fun _ _ => rfl⟩
  | blank _ _ column => exact ⟨place, column, fun _ _ => rfl⟩

/-- A line break, which begins a line. -/
theorem InSingle.broken {fresh : Bool} {c : Char} {s : List Char} {gap : Option Gap} {place : Place}
    (h : InSingle fresh (c :: s) gap place) (hc : isBreak c) : ∀ g ∈ gap, Broken g := by
  cases h with
  | line broken => simpa using broken
  | char => simp
  | blank _ head => exact absurd hc (by simp [head c rfl])

/-- A space, which begins no line. -/
theorem InSingle.onLine {fresh : Bool} {s : List Char} {gap : Option Gap} {place : Place}
    (h : InSingle fresh (' ' :: s) gap place) : OnLine gap := by
  cases h with
  | line _ head => simp at head
  | char => exact onLine_none
  | blank onLine => exact onLine

/-- One step of the reader: it passes a character, which is then pending. -/
structure SingleStep (text : List Char) (gap : Option Gap) (place : Place) (fresh : Bool) (c : Char)
    (s : List Char) (text' : List Char) (gap' : Option Gap) (place' : Place) (fresh' : Bool) :
    Prop where
  inside : InSingle fresh' s gap' place'
  pending : pending text' gap' = pending text gap ++ [c]
  reads : ∀ rest, singleFrom text gap place (singleText fresh (c :: s) ++ rest) =
    singleFrom text' gap' place' (singleText fresh' s ++ rest)

section
variable {fresh : Bool} {c : Char} {s : List Char} {gap : Option Gap} {place : Place}
  (hs : IsSingle (c :: s)) (h : InSingle fresh (c :: s) gap place) (text : List Char)
include hs h

theorem singleStep_break (hbreak : isBreak c) :
    SingleStep text gap place fresh c s text (some ((gap.getD {}).add c)) (place.after c) true := by
  have hany := (isAnyBreak_eq_of_kept (kept_of_isWritable (hs.writable c List.mem_cons_self))).trans
    hbreak
  have hgap := h.broken hbreak
  have hne : c ≠ '\n' := by
    rintro rfl
    exact hs.oneLine List.mem_cons_self
  have hquote : c ≠ '\'' := by
    rintro rfl
    exact absurd hbreak (by decide)
  have hhead : s.head? ≠ some ' ' := by
    intro hspace
    exact absurd (head_of_hasPair hs.spaceAfterBreak hany ' ' hspace) (by decide)
  refine ⟨.line (broken_add hbreak hne hgap) hhead, pending_break hbreak hne hgap text,
    fun rest => ?_⟩
  rw [singleText, if_pos hany, List.cons_append, singleFrom_cons text gap place _ (Or.inl hquote),
    hbreak, Bool.true_or, if_pos rfl]

theorem exists_singleStep_inline (hbreak : isBreak c = false) :
    ∃ text' gap' place', SingleStep text gap place fresh c s text' gap' place' false := by
  have hwritable := hs.writable c List.mem_cons_self
  have hany : ¬ isAnyBreak c := by
    rw [isAnyBreak_eq_of_kept (kept_of_isWritable hwritable), hbreak]
    exact Bool.false_ne_true
  have hpending := pending_char c text gap
  obtain ⟨place₁, hcolumn, henter⟩ := h.enter
  have hafter := Place.column_after_pos hbreak place₁
  have henter' : ∀ rest, singleFrom text gap place (singleText fresh (c :: s) ++ rest) =
      singleFrom text gap place₁
        ((if c == '\'' then ['\'', '\''] else [c]) ++ (singleText false s ++ rest)) := by
    intro rest
    rw [singleText, if_neg hany, List.append_assoc, List.append_assoc, henter]
  by_cases hquote : c = '\''
  · subst hquote
    have htwo : 0 < (place₁.afterAll ['\'', '\'']).column := by
      rw [Place.column_afterAll (List.all_iff_forall_prop.1 (by decide))]
      simp
    refine ⟨_, none, _, .char htwo, hpending, fun rest => ?_⟩
    rw [henter', if_pos (by decide), List.cons_append, List.cons_append, List.nil_append,
      singleFrom]
  · have hreads : ∀ rest, singleFrom text gap place (singleText fresh (c :: s) ++ rest) =
        singleFrom text gap place₁ (c :: (singleText false s ++ rest)) := by
      intro rest
      rw [henter', if_neg (by simpa using hquote), List.singleton_append]
    by_cases hspace : c = ' '
    · subst hspace
      have hblank : (isBreak ' ' || isBlank ' ') = true := by decide
      obtain ⟨hline, hpending⟩ := pending_blank hbreak h.onLine text
      have hhead : ∀ d ∈ s.head?, isBreak d = false := by
        intro d hd
        have hd' : isWritable d := hs.tail.writable d (List.mem_of_mem_head? hd)
        rw [← isAnyBreak_eq_of_kept (kept_of_isWritable hd')]
        exact head_of_hasPair hs.spaceBeforeBreak (by decide) d hd
      refine ⟨text, _, _, .blank hline hhead hafter, hpending, fun rest => ?_⟩
      rw [hreads, singleFrom_cons text gap place₁ _ (Or.inl hquote), if_pos hblank]
    · have hblank : isBlank c = false := by
        rw [isBlank_eq_of_isWritable hwritable]
        simpa using hspace
      refine ⟨_, none, _, .char hafter, hpending, fun rest => ?_⟩
      rw [hreads, singleFrom_char text gap place₁ _ hquote hbreak hblank hcolumn]

end

/-- A single-quoted text is read up to its closing quote. -/
theorem singleFrom_text {fresh : Bool} {s : List Char} {gap : Option Gap} {place : Place}
    (hs : IsSingle s) (h : InSingle fresh s gap place) (text : List Char) (rest : List Char)
    (hrest : rest.head? ≠ some '\'') :
    ∃ place', singleFrom text gap place (singleText fresh s ++ '\'' :: rest) =
      .ok (pending text gap ++ s, ⟨place', rest⟩) := by
  -- The induction is on the text that was written; `InSingle` tells where the reader stands in it.
  induction s generalizing fresh gap place text with
  | nil =>
    obtain ⟨place', hcolumn, henter⟩ := h.enter
    refine ⟨place'.after '\'', ?_⟩
    rw [singleText, henter, singleFrom_close text gap place' rest hrest hcolumn, List.append_nil]
  | cons c s ih =>
    obtain ⟨text', gap', place', fresh', hstep⟩ : ∃ text' gap' place' fresh',
        SingleStep text gap place fresh c s text' gap' place' fresh' := by
      by_cases hbreak : isBreak c
      · exact ⟨_, _, _, _, singleStep_break hs h text hbreak⟩
      · obtain ⟨text', gap', place', hstep⟩ :=
          exists_singleStep_inline hs h text (by simpa using hbreak)
        exact ⟨text', gap', place', false, hstep⟩
    obtain ⟨place'', hread⟩ := ih hs.tail hstep.inside text'
    refine ⟨place'', ?_⟩
    rw [hstep.reads, hread, hstep.pending, List.append_assoc, List.singleton_append]

theorem kept_singleText {s : List Char} (h : ∀ c ∈ s, isWritable c) (fresh : Bool) :
    ∀ d ∈ singleText fresh s, Kept d := by
  induction s generalizing fresh with
  | nil => exact kept_indentation fresh
  | cons c s ih =>
    obtain ⟨hc, hs⟩ := List.forall_mem_cons.1 h
    have hkept := kept_of_isWritable hc
    rw [singleText]
    split
    · exact List.forall_mem_cons.2 ⟨hkept, ih hs true⟩
    · rw [List.forall_mem_append, List.forall_mem_append]
      refine ⟨⟨kept_indentation fresh, ?_⟩, ih hs false⟩
      split
      · exact kept_of_all (by decide)
      · simp [hkept]

end AgentPrompt.Yaml
