import AgentPrompt.Proofs.Template.Names

/-! An opener that a later placeholder restarts stays in the compiled text, and the value that
replaces the placeholder may complete it. With values that hold no opening brace there is no other
way. -/
namespace AgentPrompt.Template

/-! ## Openers of a text in two parts -/

theorem OpensAt.le_byteLength {s r : List Char} {p : Nat} (h : OpensAt s p r) :
    p + 2 ≤ byteLength s := by
  obtain ⟨before, rfl, rfl, -⟩ := h
  simp only [byteLength_append, byteLength_opener]
  omega

theorem OpensAt.append {s r : List Char} {p : Nat} (h : OpensAt s p r) (t : List Char) :
    OpensAt (s ++ t) p (r ++ t) := by
  obtain ⟨before, rfl, rfl, he⟩ := h
  exact ⟨before, by simp, rfl, he⟩

/-- A text after which no pair of braces is split has no influence on the pairs that follow. -/
theorem even_trailingBraces_append_iff {a mid r : List Char} (h : AtBoundary a (mid ++ opener ++ r)) :
    trailingBraces (a ++ mid) % 2 = 0 ↔ trailingBraces mid % 2 = 0 := by
  have hnil : AtBoundary [] (mid ++ opener ++ r) := Or.inl rfl
  have hboth := (@mem_openersFrom_iff 0 a _ h (byteLength mid) r).symm.trans
    (@mem_openersFrom_iff 0 [] _ hnil (byteLength mid) r)
  have hsame : ∀ mid', mid ++ opener ++ r = mid' ++ opener ++ r → mid' = mid := fun mid' he =>
    (List.append_cancel_right (List.append_cancel_right he)).symm
  constructor
  · intro he
    obtain ⟨mid', hm, -, he'⟩ := hboth.1 ⟨mid, rfl, by simp, he⟩
    rwa [hsame mid' hm] at he'
  · intro he
    obtain ⟨mid', hm, -, he'⟩ := hboth.2 ⟨mid, rfl, by simp, he⟩
    rwa [hsame mid' hm] at he'

/-- The live openers of two texts side by side are those of each, unless a pair of braces is split
between them. -/
theorem opensAt_append_iff {a b : List Char} (h : AtBoundary a b) (p : Nat) (r : List Char) :
    OpensAt (a ++ b) p r ↔
      (∃ t, OpensAt a p t ∧ r = t ++ b) ∨ ∃ q, OpensAt b q r ∧ p = byteLength a + q := by
  have second : ∀ mid, b = mid ++ opener ++ r → trailingBraces (a ++ mid) % 2 = 0 →
      OpensAt b (byteLength mid) r := by
    rintro mid rfl he
    exact ⟨mid, rfl, rfl, (even_trailingBraces_append_iff h).1 he⟩
  constructor
  · rintro ⟨before, ht, rfl, he⟩
    rw [List.append_assoc] at ht
    rcases List.append_eq_append_iff.1 ht with ⟨mid, rfl, hb⟩ | ⟨x, ha, hx⟩
    · exact Or.inr ⟨_, second mid (by simpa using hb) he, byteLength_append a mid⟩
    · match x, hx with
      | [], hx =>
        rw [List.append_nil] at ha
        subst ha
        exact Or.inr ⟨_, second [] (by simpa using hx.symm) (by simpa using he), by simp⟩
      | [c], hx =>
        -- A brace of the pair on each side: the boundary excludes it.
        simp only [opener, List.cons_append, List.cons.injEq, List.nil_append] at hx
        obtain ⟨rfl, rfl⟩ := hx
        rw [ha] at h
        rcases h with h | h
        · rw [trailingBraces_concat, if_pos rfl] at h
          omega
        · exact absurd rfl h
      | c :: d :: t, hx =>
        simp only [opener, List.cons_append, List.cons.injEq, List.nil_append] at hx
        obtain ⟨rfl, rfl, rfl⟩ := hx
        exact Or.inl ⟨t, ⟨before, by rw [ha]; simp [opener], rfl, he⟩, rfl⟩
  · rintro (⟨t, ho, rfl⟩ | ⟨q, ⟨mid, rfl, rfl, he⟩, rfl⟩)
    · exact ho.append b
    · exact ⟨a ++ mid, by simp, byteLength_append a mid, (even_trailingBraces_append_iff h).2 he⟩

theorem not_opensAt_of_not_mem {s r : List Char} {p : Nat} (h : '\x7b' ∉ s) :
    ¬ OpensAt s p r := by
  rintro ⟨before, rfl, -, -⟩
  simp [opener] at h

theorem trailingBraces_of_not_mem {s : List Char} (h : '\x7b' ∉ s) : trailingBraces s = 0 := by
  rcases List.eq_nil_or_concat s with rfl | ⟨s, c, rfl⟩
  · rfl
  · have hc : c ≠ '\x7b' := by
      rintro rfl
      simp at h
    rw [List.concat_eq_append, trailingBraces_concat, if_neg hc]

theorem Closes.append {name s : List Char} (h : Closes name s) (t : List Char) :
    Closes name (s ++ t) := by
  obtain ⟨left, right, more, rfl, hname, hl, hr⟩ := h
  exact ⟨left, right, more ++ t, by simp, hname, hl, hr⟩

/-- Whether a placeholder may have the character after its opener. -/
def mayStand (c : Char) : Bool :=
  Text.isBlank c || isNameRest c || c == '\x7d'

/-- A text that is not yet closed has only characters of the placeholder. -/
theorem Closes.mayStand_of_mem {name tail rest : List Char} (h : Closes name (tail ++ rest))
    (hopen : ¬ Closes name tail) {c : Char} (hc : c ∈ tail) : mayStand c = true := by
  obtain ⟨left, right, more, he, hname, hl, hr⟩ := h
  rcases List.append_eq_append_iff.1 he with ⟨x, hx, -⟩ | ⟨x, hx, -⟩
  · have hm : c ∈ left ++ name ++ right ++ closer := by
      rw [hx]
      exact List.mem_append_left x hc
    simp only [List.mem_append, closer, List.mem_cons, List.not_mem_nil, or_false, or_self] at hm
    rcases hm with ((hm | hm) | hm) | rfl
    · simp [mayStand, (Text.isBlankText_iff left).1 hl c hm]
    · simp [mayStand, isNameRest_of_mem_name hname c hm]
    · simp [mayStand, (Text.isBlankText_iff right).1 hr c hm]
    · rfl
  · exact absurd ⟨left, right, x, hx, hname, hl, hr⟩ hopen

theorem eq_of_byteLength_eq {a b c d : List Char} (h : a ++ b = c ++ d)
    (hl : byteLength a = byteLength c) : a = c := by
  obtain ⟨x, rfl, -⟩ := eq_append_of_byteLength_le h (Nat.le_of_eq hl)
  rw [byteLength_append] at hl
  obtain rfl := byteLength_eq_zero (s := x) (by omega)
  simp

namespace Layout

/-! ## Layouts whose literal texts stay literal -/

/-- No opener in the text begins a placeholder when `rest` follows the text. -/
def IsLiteral (text rest : List Char) : Prop :=
  ∀ p tail name, OpensAt text p tail → ¬ Closes name (tail ++ rest)

/-- The placeholders of a settled layout are its slots: its literal texts hold no other, and no
brace before a slot joins those of the slot. -/
inductive Settled : Layout → Prop
  | last {first : List Char} (literal : IsLiteral first []) : Settled ⟨first, []⟩
  | cons {first : List Char} {s : Slot} {slots : List Slot}
      (even : trailingBraces first % 2 = 0)
      (literal : IsLiteral first (s.source ++ text ⟨s.after, slots⟩))
      (more : Settled ⟨s.after, slots⟩) : Settled ⟨first, s :: slots⟩

theorem Placed.drop {start : Nat} {a first : List Char} {slots : List Slot}
    (h : Placed start ⟨a ++ first, slots⟩) : Placed (start + byteLength a) ⟨first, slots⟩ := by
  intro before s after hs
  rw [h before s after hs]
  simp only [byteLength_append]
  omega

theorem Placed.le_position {start : Nat} {l : Layout} (h : l.Placed start) {s : Slot}
    (hs : s ∈ l.slots) : start + byteLength l.first ≤ s.position := by
  obtain ⟨before, after, hl⟩ := List.append_of_mem hs
  rw [h before s after hl, byteLength_append]
  omega

/-- A layout is settled if its slots are the openers of its text that something closes. -/
theorem settled_of_slots {start : Nat} {first : List Char} {slots : List Slot}
    (hplaced : Placed start ⟨first, slots⟩) (hsource : ∀ s ∈ slots, s.IsPlaceholder)
    (hslots : ∀ q, (∃ s ∈ slots, s.position = start + q) ↔
      ∃ r name, OpensAt (text ⟨first, slots⟩) q r ∧ Closes name r) :
    Settled ⟨first, slots⟩ := by
  induction slots generalizing start first with
  | nil =>
    refine .last fun p tail name ho hc => ?_
    have hnone := (hslots p).2 ⟨tail, name, by simpa [text] using ho, by simpa using hc⟩
    simp at hnone
  | cons s slots ih =>
    have hposition : s.position = start + byteLength first := by
      simpa using hplaced [] s slots rfl
    obtain ⟨body, hbody, -, -⟩ := hsource s List.mem_cons_self
    -- The slot's own opener is live, so the braces before it are pairs.
    have heven : trailingBraces first % 2 = 0 := by
      obtain ⟨r, name, ⟨before, ht, hp, he⟩, -⟩ := (hslots _).1 ⟨s, List.mem_cons_self, hposition⟩
      rw [text_cons, List.append_assoc before] at ht
      rwa [eq_of_byteLength_eq ht hp.symm]
    have hrest : AtBoundary (first ++ s.source) (text ⟨s.after, slots⟩) := by
      have hlast : first ++ s.source = first ++ opener ++ body ++ ['\x7d'] ++ ['\x7d'] := by
        simp [hbody, closer]
      left
      rw [hlast, trailingBraces_concat, if_neg (by decide)]
    have hlength : byteLength first + 4 ≤ byteLength (first ++ s.source) := by
      simp only [hbody, byteLength_append, byteLength_opener, byteLength_closer]
      omega
    have hmore : Placed (start + byteLength (first ++ s.source)) ⟨s.after, slots⟩ := by
      have hp := hplaced.rest
      rw [Slot.text, ← List.append_assoc] at hp
      exact hp.drop
    refine .cons heven (fun p tail name ho hc => ?_) (ih hmore ?_ fun q => ?_)
    · have hle := ho.le_byteLength
      have hopens := ho.append (s.source ++ text ⟨s.after, slots⟩)
      rw [← text_cons] at hopens
      obtain ⟨r, hr, hat⟩ := (hslots p).2 ⟨_, name, hopens, hc⟩
      have hge := hplaced.le_position hr
      simp only at hge
      omega
    · exact fun r hr => hsource r (List.mem_cons_of_mem _ hr)
    · -- What opens in the rest opens in the whole text, behind the first slot.
      have hopens : ∀ r, OpensAt (text ⟨s.after, slots⟩) q r ↔
          OpensAt (text ⟨first, s :: slots⟩) (byteLength (first ++ s.source) + q) r := by
        intro r
        rw [text_cons, ← List.append_assoc, opensAt_append_iff hrest]
        constructor
        · exact fun ho => Or.inr ⟨q, ho, rfl⟩
        · rintro (⟨t, ho, -⟩ | ⟨q', ho, hq⟩)
          · have hle := ho.le_byteLength
            omega
          · rwa [Nat.add_left_cancel hq]
      simp only [hopens, ← hslots, List.mem_cons, Nat.add_assoc]
      constructor
      · rintro ⟨r, hr, hat⟩
        exact ⟨r, Or.inr hr, hat⟩
      · rintro ⟨r, rfl | hr, hat⟩
        · omega
        · exact ⟨r, hr, hat⟩

theorem settled_ofPieces {template : String} {ps : List Piece}
    (h : pieces template.toList = .ok ps) : Settled (ofPieces ps) := by
  have hl := isOf_ofPieces (pieces_tiles h)
  refine settled_of_slots hl.placed hl.isPlaceholder fun q => ?_
  rw [Nat.zero_add]
  have hat := exists_slot_iff_placeholderAt h
  constructor
  · rintro ⟨s, hs, rfl⟩
    obtain ⟨r, ho, hc⟩ := (hat s.name s.position).1 ⟨s, hs, rfl, rfl⟩
    exact ⟨r, s.name.toList, by rwa [← hl.text_eq] at ho, hc⟩
  · rintro ⟨r, name, ho, hc⟩
    have hp : PlaceholderAt template (String.ofList name) q :=
      ⟨r, by rwa [← hl.text_eq], by simpa using hc⟩
    obtain ⟨s, hs, -, hq⟩ := (hat _ q).2 hp
    exact ⟨s, hs, hq⟩

/-! ## Filled layouts -/

/-- An opener in a literal text right before a slot, which the text alone leaves open and the
rendered variable and what follows it close around this name. The position is its byte offset in the
filled layout. -/
inductive Straddles (b : Bindings) (name : List Char) : Layout → Nat → Prop
  | here {first tail : List Char} {s : Slot} {slots : List Slot} {p : Nat}
      (opens : OpensAt first p tail) (unclosed : ¬ Closes name tail)
      (closes : Closes name (tail ++ (rendered b s.name ++ filled ⟨s.after, slots⟩ b))) :
      Straddles b name ⟨first, s :: slots⟩ p
  | later {first : List Char} {s : Slot} {slots : List Slot} {p : Nat}
      (more : Straddles b name ⟨s.after, slots⟩ p) :
      Straddles b name ⟨first, s :: slots⟩ (byteLength (first ++ rendered b s.name) + p)

def leading (l : Layout) : List (List Char) :=
  (l.first :: l.slots.map Slot.after).dropLast

theorem Straddles.exists_opener {b : Bindings} {name : List Char} {l : Layout} {p : Nat}
    (h : Straddles b name l p) :
    ∃ text ∈ l.leading, ∃ q tail, OpensAt text q tail ∧ ∀ c ∈ tail, mayStand c = true := by
  induction h with
  | here opens unclosed closes =>
    exact ⟨_, List.mem_cons_self, _, _, opens, fun c hc => closes.mayStand_of_mem unclosed hc⟩
  | later _ ih =>
    obtain ⟨text, ht, ho⟩ := ih
    exact ⟨text, List.mem_cons_of_mem _ ht, ho⟩

/-- The placeholders of a filled layout are the openers that straddle a value. -/
theorem Settled.exists_opensAt_filled_iff {l : Layout} (h : Settled l) {b : Bindings}
    (hb : ∀ name, '\x7b' ∉ rendered b name) (name : List Char) (p : Nat) :
    (∃ r, OpensAt (l.filled b) p r ∧ Closes name r) ↔ Straddles b name l p := by
  induction h generalizing p with
  | @last first literal =>
    simp only [filled, List.flatMap_nil, List.append_nil]
    constructor
    · rintro ⟨r, ho, hc⟩
      exact absurd (by simpa using hc) (literal p r name ho)
    · rintro ⟨⟩
  | @cons first s slots even literal more ih =>
    have hvalue : AtBoundary (rendered b s.name) (filled ⟨s.after, slots⟩ b) := by
      left
      rw [trailingBraces_of_not_mem (hb s.name)]
    rw [filled_cons]
    -- No pair is split around the value, so an opener stands in the text before it or behind it.
    constructor
    · rintro ⟨r, ho, hc⟩
      rcases (opensAt_append_iff (Or.inl even) p r).1 ho with ⟨tail, hfirst, rfl⟩ | ⟨q, hrest, rfl⟩
      · exact .here hfirst (fun hn => literal p tail name hfirst (hn.append _)) hc
      · rcases (opensAt_append_iff hvalue q r).1 hrest with ⟨t, hv, -⟩ | ⟨q, hmore, rfl⟩
        · exact absurd hv (not_opensAt_of_not_mem (hb s.name))
        · rw [← Nat.add_assoc, ← byteLength_append]
          exact .later ((ih q).1 ⟨r, hmore, hc⟩)
    · rintro (⟨ho, -, hc⟩ | hmore)
      · exact ⟨_, ho.append _, hc⟩
      · rename_i q
        obtain ⟨r, ho, hc⟩ := (ih q).2 hmore
        have hrest := (opensAt_append_iff hvalue _ r).2 (Or.inr ⟨q, ho, rfl⟩)
        have hall := (opensAt_append_iff (Or.inl even) _ r).2 (Or.inr ⟨_, hrest, rfl⟩)
        rw [← Nat.add_assoc, ← byteLength_append] at hall
        exact ⟨r, hall, hc⟩

end Layout

/-! ## Compiled texts -/

section
variable {template out : String} {b : Bindings}

theorem exists_filled_of_compile (h : compile template b = .ok out) :
    ∃ ps, pieces template.toList = .ok ps ∧ out.toList = (Layout.ofPieces ps).filled b := by
  cases hps : pieces template.toList with
  | error e =>
    obtain ⟨-, -, hc⟩ := exists_unterminated hps
    rw [hc b] at h
    cases h
  | ok ps =>
    rcases compile_cases hps b with ⟨hknown, -⟩ | ⟨name, p, -, hc, -⟩
    · rw [compile_of_firstMissing?_eq_none hps hknown] at h
      obtain rfl := Except.ok.inj h
      exact ⟨ps, rfl, String.toList_ofList⟩
    · rw [hc] at h
      cases h

theorem not_mem_rendered {c : Char} (hb : ∀ name v, b.get? name = some v → c ∉ v.render.toList)
    (name : String) : c ∉ rendered b name := by
  rw [rendered]
  cases hv : b.get? name with
  | none => simp
  | some v => exact hb name v hv

/-- The placeholders of a compiled text are the openers that its template keeps as literal text and
that a value completes, when no value has an opening brace. There is none if something follows every
opener in the literal texts before the template's own placeholders that no placeholder may have. -/
theorem placeholderAt_compile_iff
    (hb : ∀ name v, b.get? name = some v → '\x7b' ∉ v.render.toList)
    (h : compile template b = .ok out) :
    ∃ ps, pieces template.toList = .ok ps ∧
      (∀ name p, PlaceholderAt out name p ↔
        (Layout.ofPieces ps).Straddles b name.toList p) ∧
      ∀ names, placeholders out = .ok names →
        (∀ name, name ∈ names ↔ ∃ p, (Layout.ofPieces ps).Straddles b name.toList p) ∧
        ((∀ text ∈ (Layout.ofPieces ps).leading, ∀ q tail, OpensAt text q tail →
          ∃ c ∈ tail, mayStand c = false) → names = []) := by
  obtain ⟨ps, hps, hout⟩ := exists_filled_of_compile h
  have hat : ∀ name p, PlaceholderAt out name p ↔
      (Layout.ofPieces ps).Straddles b name.toList p := by
    intro name p
    rw [PlaceholderAt, hout]
    exact (Layout.settled_ofPieces hps).exists_opensAt_filled_iff (not_mem_rendered hb) _ p
  refine ⟨ps, hps, hat, fun names hnames => ?_⟩
  obtain ⟨qs, hqs, rfl⟩ := placeholders_eq_ok_iff.1 hnames
  have hmem : ∀ name, name ∈ Template.names qs ↔
      ∃ p, (Layout.ofPieces ps).Straddles b name.toList p := by
    intro name
    rw [mem_names_iff hqs]
    simp only [hat]
  refine ⟨hmem, fun hno => List.eq_nil_iff_forall_not_mem.2 fun name hn => ?_⟩
  obtain ⟨p, hp⟩ := (hmem name).1 hn
  obtain ⟨text, ht, q, tail, ho, hall⟩ := hp.exists_opener
  obtain ⟨c, hc, hnever⟩ := hno text ht q tail ho
  rw [hall c hc] at hnever
  cases hnever

end

def nameOfName : Bindings :=
  Bindings.empty.insert "x" (.text "name")

theorem get?_nameOfName {name : String} {v : Variable} (h : nameOfName.get? name = some v) :
    v = .text "name" := by
  rw [nameOfName, Bindings.get?_insert] at h
  split at h
  · exact (Option.some.inj h).symm
  · cases h

theorem placeholderAt_compile_iff_four_braces :
    (∀ name v, nameOfName.get? name = some v → '\x7b' ∉ v.render.toList) ∧
      compile "\x7b\x7b\x7b\x7bx\x7d\x7d\x7d\x7d" nameOfName = .ok "\x7b\x7bname\x7d\x7d" ∧
      ∃ ps p, pieces "\x7b\x7b\x7b\x7bx\x7d\x7d\x7d\x7d".toList = .ok ps ∧
        (Layout.ofPieces ps).Straddles nameOfName "name".toList p := by
  have hb : ∀ name v, nameOfName.get? name = some v → '\x7b' ∉ v.render.toList := by
    intro name v hv
    rw [get?_nameOfName hv]
    decide
  have hc : compile "\x7b\x7b\x7b\x7bx\x7d\x7d\x7d\x7d" nameOfName =
      .ok "\x7b\x7bname\x7d\x7d" := by
    rfl
  obtain ⟨ps, hps, -, hnames⟩ := placeholderAt_compile_iff hb hc
  obtain ⟨p, hp⟩ := ((hnames ["name"] (by rfl)).1 "name").1 (by decide)
  exact ⟨hb, hc, ps, p, hps, hp⟩

/-- Values without braces do not keep placeholders out of a compiled text. -/
theorem not_forall_placeholders_compile_eq_nil :
    ¬ ∀ (template : String) (b : Bindings) (out : String),
      (∀ name v, b.get? name = some v →
        '\x7b' ∉ v.render.toList ∧ '\x7d' ∉ v.render.toList) →
      compile template b = .ok out → ∀ names, placeholders out = .ok names → names = [] := by
  intro h
  have hb : ∀ name v, nameOfName.get? name = some v →
      '\x7b' ∉ v.render.toList ∧ '\x7d' ∉ v.render.toList := by
    intro name v hv
    rw [get?_nameOfName hv]
    decide
  have hnil := h "\x7b\x7b\x7b\x7bx\x7d\x7d\x7d\x7d" nameOfName "\x7b\x7bname\x7d\x7d" hb (by rfl)
    ["name"] (by rfl)
  cases hnil

end AgentPrompt.Template
