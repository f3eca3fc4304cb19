import AgentPrompt.Proofs.Yaml.Quoted

namespace AgentPrompt.Yaml

def isKeyChar (c : Char) : Bool :=
  c.isLower || c == '_'

/-- A line of a printed document starts with a name or with the mark of an entry. -/
def LineStart (s : List Char) : Prop :=
  ∀ c ∈ s.head?, isKeyChar c ∨ c = '-'

theorem ne_of_isKeyChar {c d : Char} (h : isKeyChar c) (hd : isKeyChar d = false) : c ≠ d := by
  rintro rfl
  rw [h] at hd
  cases hd

theorem isWritable_of_isKeyChar {c : Char} (h : isKeyChar c) : isWritable c := by
  have hcases : (decide (97 ≤ c.val) && decide (c.val ≤ 122) || c == '_') = true := h
  simp only [Bool.or_eq_true, Bool.and_eq_true, decide_eq_true_eq, beq_iff_eq] at hcases
  rcases hcases with ⟨hlow, hhigh⟩ | rfl
  · have hcode : 97 ≤ c.toNat ∧ c.toNat ≤ 122 := ⟨hlow, hhigh⟩
    simp only [isWritable, Bool.or_eq_true, Bool.and_eq_true, decide_eq_true_eq]
    omega
  · decide

/-- What starts a line is nothing that is passed between tokens. -/
theorem LineStart.head {c : Char} {s : List Char} (h : LineStart (c :: s)) :
    isBreak c = false ∧ isBlank c = false ∧ c ≠ '#' ∧ c ≠ byteOrderMark := by
  have hne : ∀ d : Char, isKeyChar d = false → d ≠ '-' → c ≠ d := by
    intro d hkey hdash
    rcases h c rfl with hc | rfl
    · exact ne_of_isKeyChar hc hkey
    · exact hdash.symm
  have hbreak : ∀ d ∈ ['\n', lineSeparator, paragraphSeparator, ' ', '\t', '#', byteOrderMark],
      isKeyChar d = false ∧ d ≠ '-' := List.all_iff_forall_prop.1 (by decide)
  have hlist : ∀ d ∈ ['\n', lineSeparator, paragraphSeparator, ' ', '\t', '#', byteOrderMark],
      c ≠ d := fun d hd => hne d (hbreak d hd).1 (hbreak d hd).2
  simp only [List.forall_mem_cons] at hlist
  obtain ⟨hline, hseparator, hparagraph, hspace, htab, hcomment, hmark, -⟩ := hlist
  simp [isBreak, isBlank, hline, hseparator, hparagraph, hspace, htab, hcomment, hmark]

theorem startsBlank_append_of_startsSpace {s : List Char} (h : startsSpace s = false)
    (rest : List Char) : startsBlank (s ++ rest) = false := by
  cases s with
  | nil => cases h
  | cons c s =>
    have hc : isAnySpace c = false := by simpa [startsSpace] using h
    simp only [isAnySpace, isAnyBreak, Bool.or_eq_false_iff] at hc
    simp [startsBlank, hc]

section
variable {indent : Nat} {text : List Char} {gap : Option Gap} {place : Place} {rest : List Char}

theorem plainFrom_blank {c : Char} (hbreak : isBreak c = false) (hblank : isBlank c)
    (hgap : OnLine gap) :
    plainFrom false indent text gap place (c :: rest) =
      plainFrom false indent text (some ((gap.getD {}).add c)) (place.after c) rest := by
  have hline : (gap.getD {}).broken = false := by
    cases gap with
    | none => rfl
    | some g => exact hgap g rfl
  rw [plainFrom]
  simp [hbreak, hblank, hline]

theorem plainFrom_char {c : Char} (hbreak : isBreak c = false) (hblank : isBlank c = false)
    (hends : endsPlain false indent place.column gap.isSome c rest = false) :
    plainFrom false indent text gap place (c :: rest) =
      plainFrom false indent (c :: (gapText gap).reverse ++ text) none (place.after c) rest := by
  rw [plainFrom]
  simp [hbreak, hblank, hends]

/-- A character inside a bare text does not end it. The gap may be there only behind a blank. -/
theorem endsPlain_inner {a c : Char} {s : List Char}
    (hinner : hasInnerIndicator (a :: c :: s) = false) (hspace : gap.isSome → a = ' ')
    (hindent : indent ≤ place.column) (hcolumn : 0 < place.column) (rest : List Char) :
    endsPlain false indent place.column gap.isSome c (s ++ rest) = false := by
  simp only [hasInnerIndicator, Bool.or_eq_false_iff] at hinner
  obtain ⟨⟨hcolon, hcomment⟩, -⟩ := hinner
  have hopen : (gap.isSome && ((!false && decide (place.column < indent)) || c == '#')) = false := by
    rw [Bool.and_eq_false_imp]
    intro hsome
    obtain rfl := hspace hsome
    have hmark : (c == '#') = false := by
      simpa [show isAnySpace ' ' = true by decide] using hcomment
    simp [hmark, hindent]
  have hvalue : (c == ':' && startsBlank (s ++ rest)) = false := by
    rw [Bool.and_eq_false_imp] at hcolon ⊢
    exact fun hc => startsBlank_append_of_startsSpace (hcolon hc) rest
  rw [endsPlain, hopen, Place.column_beq_zero hcolumn, hvalue]
  rfl

variable (indent) in
/-- Nor does its first character, which at the left edge is one of a name. -/
theorem endsPlain_first {c : Char} {s : List Char} (hfirst : hasFirstIndicator (c :: s) = false)
    (hplace : 0 < place.column ∨ isKeyChar c) (rest : List Char) :
    endsPlain false indent place.column false c (s ++ rest) = false := by
  simp only [hasFirstIndicator, Bool.or_eq_false_iff, Bool.and_eq_false_imp] at hfirst
  have hmarker : (place.column == 0 && startsDocumentMarker (c :: (s ++ rest))) = false := by
    rw [Bool.and_eq_false_imp, beq_iff_eq]
    intro hzero
    have hkey : isKeyChar c := hplace.resolve_left (by omega)
    have hdash : c ≠ '-' := ne_of_isKeyChar hkey (by decide)
    have hdot : c ≠ '.' := ne_of_isKeyChar hkey (by decide)
    cases s ++ rest with
    | nil => rfl
    | cons d more => cases more <;> simp [startsDocumentMarker, startsMarker, hdash, hdot]
  have hvalue : (c == ':' && startsBlank (s ++ rest)) = false := by
    rw [Bool.and_eq_false_imp]
    intro hcolon
    exact startsBlank_append_of_startsSpace (hfirst.2 (by simp [hcolon])) rest
  rw [endsPlain, hmarker, hvalue]
  rfl

variable (text gap place) in
/-- What follows a character of a plain text is passed. -/
theorem plainFrom_inner {a : Char} {s : List Char}
    (hs : ∀ c ∈ s, isWritable c ∧ isBreak c = false) (hinner : hasInnerIndicator (a :: s) = false)
    (hgap : OnLine gap) (hspace : gap.isSome → a = ' ') (hindent : indent ≤ place.column)
    (hcolumn : 0 < place.column) (rest : List Char) :
    ∃ text' gap', plainFrom false indent text gap place (s ++ rest) =
        plainFrom false indent text' gap' (place.afterAll s) rest ∧
      OnLine gap' ∧ (gap'.isSome → (a :: s).getLast? = some ' ') ∧
      pending text' gap' = pending text gap ++ s := by
  -- The gap stays on one line, so what is pending grows by the characters that were passed.
  induction s generalizing a text gap place with
  | nil => exact ⟨text, gap, rfl, hgap, fun h => by simp [hspace h], by simp⟩
  | cons c s ih =>
    obtain ⟨⟨hwritable, hbreak⟩, hrest⟩ := List.forall_mem_cons.1 hs
    have hmore : hasInnerIndicator (c :: s) = false := by
      rw [hasInnerIndicator, Bool.or_eq_false_iff] at hinner
      exact hinner.2
    have hafter : (place.after c).column = place.column + 1 := Place.column_after hbreak place
    have hlast : (a :: c :: s).getLast? = (c :: s).getLast? := by simp
    by_cases hblank : isBlank c
    · obtain ⟨hline, hpending⟩ := pending_blank hbreak hgap text
      have hc : c = ' ' := by simpa [isBlank_eq_of_isWritable hwritable] using hblank
      obtain ⟨text', gap', hread, hgap', hend, hpending'⟩ :=
        ih text _ (place.after c) hrest hmore hline (fun _ => hc) (by omega) (by omega)
      refine ⟨text', gap', ?_, hgap', hlast ▸ hend, ?_⟩
      · rw [List.cons_append, plainFrom_blank hbreak hblank hgap, hread, Place.afterAll_cons]
      · rw [hpending', hpending, List.append_assoc, List.singleton_append]
    · rw [Bool.not_eq_true] at hblank
      have hends := endsPlain_inner hinner hspace hindent hcolumn rest
      obtain ⟨text', gap', hread, hgap', hend, hpending'⟩ :=
        ih (c :: (gapText gap).reverse ++ text) none (place.after c) hrest hmore onLine_none
          (by simp) (by omega) (by omega)
      refine ⟨text', gap', ?_, hgap', hlast ▸ hend, ?_⟩
      · rw [List.cons_append, plainFrom_char hbreak hblank hends, hread, Place.afterAll_cons]
      · rw [hpending', pending_char, List.append_assoc, List.singleton_append]

/-- A bare text is read to its last character. -/
theorem plainFrom_bare {s : List Char} (hs : IsBare s)
    (hplace : ∀ c ∈ s.head?, 0 < place.column ∨ isKeyChar c) (hindent : indent ≤ place.column + 1)
    (rest : List Char) :
    plainFrom false indent [] none place (s ++ rest) =
      plainFrom false indent s.reverse none (place.afterAll s) rest := by
  cases s with
  | nil => rfl
  | cons c s =>
    obtain ⟨hwritable, hwritables⟩ := List.forall_mem_cons.1 hs.writable
    obtain ⟨hbreak, hbreaks⟩ := List.forall_mem_cons.1 hs.unbroken
    have hblank : isBlank c = false := by
      rw [isBlank_eq_of_isWritable hwritable, beq_eq_false_iff_ne]
      rintro rfl
      exact hs.head rfl
    have hends := endsPlain_first indent hs.first (hplace c rfl) rest
    have hafter : (place.after c).column = place.column + 1 := Place.column_after hbreak place
    obtain ⟨text', gap', hread, -, hend, hpending⟩ :=
      plainFrom_inner [c] none (place.after c) (fun d hd => ⟨hwritables d hd, hbreaks d hd⟩)
        hs.inner onLine_none (by simp) (hafter ▸ hindent) (by omega) rest
    have hclosed : gap' = none := Option.not_isSome_iff_eq_none.1 fun h => hs.last (hend h)
    subst hclosed
    have htext : text' = (c :: s).reverse := by
      rw [← List.reverse_eq_iff]
      simpa [pending, gapText] using hpending
    have hstart : plainFrom false indent [] none place (c :: (s ++ rest)) =
        plainFrom false indent [c] none (place.after c) (s ++ rest) :=
      plainFrom_char hbreak hblank hends
    rw [List.cons_append, hstart, hread, htext, Place.afterAll_cons]

/-- A colon ends a plain text. -/
theorem plainFrom_colon (h : startsBlank rest) :
    plainFrom false indent text none place (':' :: rest) =
      .ok ⟨text.reverse, ⟨place, ':' :: rest⟩, false⟩ := by
  have hcolon : isBreak ':' = false ∧ isBlank ':' = false := by decide
  have hends : endsPlain false indent place.column false ':' rest := by simp [endsPlain, h]
  rw [plainFrom]
  simp [hcolon, hends]

/-- So does the end of its line, if the next line is not indented. -/
theorem plainFrom_newline (h : LineStart rest) (hindent : 0 < indent) :
    plainFrom false indent text none place ('\n' :: rest) =
      .ok ⟨text.reverse, ⟨place.after '\n', rest⟩, true⟩ := by
  have hbreak : isBreak '\n' := by decide
  have hadd : (({} : Gap).add '\n').broken := by simp [Gap.add, hbreak]
  have hcolumn : (place.after '\n').column = 0 := Place.column_after_break hbreak place
  rw [plainFrom]
  simp only [hbreak, if_true, Option.getD_none]
  cases rest with
  | nil => simp [plainFrom, hadd]
  | cons c rest =>
    obtain ⟨hc, hblank, -, -⟩ := h.head
    have hends : endsPlain false indent (place.after '\n').column true c rest := by
      simp [endsPlain, hcolumn, hindent]
    rw [plainFrom]
    simp [hc, hblank, hends, hadd]

end

/-! ## Names of fields -/

/-- The name of a field: short, and plain on every account. -/
structure IsKey (s : List Char) : Prop where
  chars : ∀ c ∈ s, isKeyChar c
  ne_nil : s ≠ []
  short : s.length ≤ 200

theorem IsKey.isBare {s : List Char} (h : IsKey s) : IsBare s := by
  have hne : ∀ d : Char, isKeyChar d = false → d ∉ s := fun d hd hm =>
    ne_of_isKeyChar (h.chars d hm) hd rfl
  have hinner : ∀ s : List Char, ':' ∉ s → '#' ∉ s → hasInnerIndicator s = false := by
    intro s hcolon hmark
    induction s with
    | nil => rfl
    | cons a s ih =>
      cases s with
      | nil => rfl
      | cons b s =>
        simp only [List.mem_cons, not_or] at hcolon hmark
        simp [hasInnerIndicator, Ne.symm hcolon.2.1, Ne.symm hmark.2.1, ih, hcolon, hmark]
  have hspace : ' ' ∉ s := hne ' ' (by decide)
  refine ⟨fun c hc => isWritable_of_isKeyChar (h.chars c hc), fun c hc => ?_, ?_,
    hinner s (hne ':' (by decide)) (hne '#' (by decide)),
    fun hhead => hspace (List.mem_of_mem_head? hhead),
    fun hlast => hspace (List.mem_of_mem_getLast? hlast)⟩
  · exact (LineStart.head (s := []) fun d hd => Or.inl (Option.some.inj hd ▸ h.chars c hc)).1
  · cases s with
    | nil => rfl
    | cons c s =>
      have hall : ∀ d ∈ "#,[]\x7b\x7d&*!|>'\"%@`?:-".toList, c ≠ d := by
        have hfalse : ∀ d ∈ "#,[]\x7b\x7d&*!|>'\"%@`?:-".toList, isKeyChar d = false :=
          List.all_iff_forall_prop.1 (by decide)
        exact fun d hd => ne_of_isKeyChar (h.chars c List.mem_cons_self) (hfalse d hd)
      simp_all [hasFirstIndicator]

end AgentPrompt.Yaml
