import AgentPrompt.Template.Compile
import AgentPrompt.Proofs.Template.Grammar

/-! A template is a first literal text and then placeholders, each with the literal text after it,
and compiling fills the placeholders. -/
namespace AgentPrompt.Template

/-- `Tiles n ps s` says that the pieces, laid from offset `n` on, are the text `s`. -/
inductive Tiles : Nat → List Piece → List Char → Prop
  | nil (n : Nat) : Tiles n [] []
  | literal {n : Nat} {ps : List Piece} {rest : List Char} (text : List Char)
      (more : Tiles (n + byteLength text) ps rest) :
      Tiles n (.literal text :: ps) (text ++ rest)
  | placeholder {n : Nat} {ps : List Piece} {rest : List Char} (body : List Char)
      (name : isName (Text.trim body) = true)
      (more : Tiles (n + byteLength (opener ++ body ++ closer)) ps rest) :
      Tiles n (.placeholder (Text.trim body) n (opener ++ body ++ closer) :: ps)
        (opener ++ body ++ closer ++ rest)

theorem Tiles.literalOf {n : Nat} {text : List Char} {ps : List Piece} {rest : List Char}
    (h : Tiles (n + byteLength text.reverse) ps rest) :
    Tiles n (literalOf text ++ ps) (text.reverse ++ rest) := by
  unfold Template.literalOf
  split
  · rename_i he
    obtain rfl := List.isEmpty_iff.1 he
    simpa using h
  · exact .literal _ h

/-- The part of the template that belongs to the open placeholder. -/
def openSource : Option Opened → List Char
  | none => []
  | some o => opener ++ o.body.reverse

/-- The offsets of a scan: `start` is where its literal text begins, and an open placeholder begins
right after that text. -/
def Aligned (start offset : Nat) (text : List Char) : Option Opened → Prop
  | none => offset = start + byteLength text
  | some o => o.position = start + byteLength text ∧ offset = o.position + 2 + byteLength o.body

/-- A scan that succeeds returns pieces that tile everything it had and was given. -/
theorem cut_tiles {start offset : Nat} {text : List Char} {open? : Option Opened}
    {rest : List Char} {ps : List Piece} (ha : Aligned start offset text open?)
    (h : cut offset text open? rest = .ok ps) :
    Tiles start ps (text.reverse ++ openSource open? ++ rest) := by
  fun_induction cut offset text open? rest generalizing start ps with
  | case1 offset text =>
    obtain rfl := Except.ok.inj h
    have ht : Tiles (start + byteLength text.reverse) [] [] := .nil _
    simpa [openSource] using ht.literalOf
  | case2 offset text o => exact absurd h (by simp)
  | case3 offset text rest ih =>
    have hs := @ih start _ ⟨ha, by simp⟩ h
    simpa [openSource, opener] using hs
  | case4 offset text o rest ih =>
    obtain ⟨hp, ho⟩ := ha
    have hs := @ih start _ ⟨by simp; omega, by simp⟩ h
    simpa [openSource, opener] using hs
  | case5 offset text o rest trimmed hname =>
    rename_i ih
    obtain ⟨hp, ho⟩ := ha
    obtain ⟨more, hm, rfl⟩ := Except.map_eq_ok_iff.1 h
    have hs := @ih (offset + 2) _ (by simp [Aligned]) hm
    have hn : offset + 2 = o.position + byteLength (opener ++ o.body.reverse ++ closer) := by
      simp only [byteLength_append, byteLength_opener, byteLength_closer, byteLength_reverse]
      omega
    rw [hn] at hs
    have ht := Tiles.placeholder o.body.reverse hname hs
    rw [hp, ← byteLength_reverse text] at ht
    simpa [openSource, closer, hp, trimmed] using ht.literalOf
  | case6 offset text o rest trimmed hname =>
    rename_i ih
    obtain ⟨hp, ho⟩ := ha
    have hs := @ih start _ (by simp [Aligned]; omega) h
    simpa [openSource, opener, closer] using hs
  | case7 offset text c rest hc ih =>
    have hs := @ih start _ (by simp only [Aligned] at ha ⊢; simp; omega) h
    simpa [openSource] using hs
  | case8 offset text o c rest hc hc' ih =>
    obtain ⟨hp, ho⟩ := ha
    have hs := @ih start _ ⟨hp, by simp; omega⟩ h
    simpa [openSource] using hs

theorem pieces_tiles {template : List Char} {ps : List Piece} (h : pieces template = .ok ps) :
    Tiles 0 ps template := by
  have ha : Aligned 0 0 [] none := by simp [Aligned]
  simpa [openSource] using cut_tiles ha h

/-! ## Layouts -/

/-- A placeholder with the literal text up to the next one. -/
structure Slot where
  name : String
  position : Nat
  source : List Char
  after : List Char

namespace Slot

def text (s : Slot) : List Char :=
  s.source ++ s.after

/-- The source runs from the opening to the closing braces around the name. -/
def IsPlaceholder (s : Slot) : Prop :=
  ∃ body, s.source = opener ++ body ++ closer ∧ s.name = String.ofList (Text.trim body) ∧
    isName s.name.toList = true

theorem IsPlaceholder.byteLength_pos {s : Slot} (h : s.IsPlaceholder) : 0 < byteLength s.text := by
  obtain ⟨body, hs, -, -⟩ := h
  simp only [text, hs, byteLength_append, byteLength_opener]
  omega

end Slot

def rendered (b : Bindings) (name : String) : List Char :=
  ((b.get? name).map fun v => v.render.toList).getD []

/-- A template as a first literal text and the placeholders after it. -/
structure Layout where
  first : List Char
  slots : List Slot

namespace Layout

def text (l : Layout) : List Char :=
  l.first ++ l.slots.flatMap Slot.text

def filled (l : Layout) (b : Bindings) : List Char :=
  l.first ++ l.slots.flatMap fun s => rendered b s.name ++ s.after

theorem text_cons (first : List Char) (s : Slot) (slots : List Slot) :
    text ⟨first, s :: slots⟩ = first ++ (s.source ++ text ⟨s.after, slots⟩) := by
  simp [text, Slot.text]

theorem filled_cons (b : Bindings) (first : List Char) (s : Slot) (slots : List Slot) :
    filled ⟨first, s :: slots⟩ b = first ++ (rendered b s.name ++ filled ⟨s.after, slots⟩ b) := by
  simp [filled]

def Placed (start : Nat) (l : Layout) : Prop :=
  ∀ before s after, l.slots = before ++ s :: after →
    s.position = start + byteLength (l.first ++ before.flatMap Slot.text)

def ofPieces : List Piece → Layout
  | [] => ⟨[], []⟩
  | .literal text :: rest => ⟨text ++ (ofPieces rest).first, (ofPieces rest).slots⟩
  | .placeholder name position source :: rest =>
    ⟨[], ⟨String.ofList name, position, source, (ofPieces rest).first⟩ :: (ofPieces rest).slots⟩

theorem text_ofPieces {n : Nat} {ps : List Piece} {s : List Char} (h : Tiles n ps s) :
    (ofPieces ps).text = s := by
  induction h with
  | nil => rfl
  | literal _ more ih => simp [ofPieces, text, ← ih]
  | placeholder body name more ih => simp [ofPieces, text, Slot.text, ← ih]

theorem placed_ofPieces {n : Nat} {ps : List Piece} {s : List Char} (h : Tiles n ps s) :
    (ofPieces ps).Placed n := by
  induction h with
  | nil => intro before s after h; simp [ofPieces] at h
  | @literal n ps rest text more ih =>
    intro before s after hs
    rw [ih before s after hs]
    simp [ofPieces, Nat.add_assoc]
  | @placeholder n ps rest body name more ih =>
    intro before s after hs
    cases before with
    | nil =>
      obtain ⟨rfl, -⟩ := List.cons.inj hs
      simp [ofPieces]
    | cons r before =>
      simp only [ofPieces, List.cons_append, List.cons.injEq] at hs
      obtain ⟨rfl, hs⟩ := hs
      rw [ih before s after hs]
      simp [ofPieces, Slot.text, Nat.add_assoc]

theorem isPlaceholder_ofPieces {n : Nat} {ps : List Piece} {s : List Char} (h : Tiles n ps s) :
    ∀ slot ∈ (ofPieces ps).slots, slot.IsPlaceholder := by
  induction h with
  | nil => simp [ofPieces]
  | literal text more ih => exact ih
  | placeholder body name more ih =>
    intro slot hslot
    rcases List.mem_cons.1 hslot with rfl | hslot
    · exact ⟨body, rfl, rfl, by simpa using name⟩
    · exact ih slot hslot

theorem Placed.rest {start : Nat} {first : List Char} {s : Slot} {slots : List Slot}
    (h : Placed start ⟨first, s :: slots⟩) : Placed start ⟨first ++ s.text, slots⟩ := by
  intro before r after hr
  rw [h (s :: before) r after (by rw [List.cons_append, ← hr])]
  simp

/-- Placeholders that are placed one after the other have increasing offsets. -/
theorem Placed.increasing {start : Nat} {first : List Char} {slots : List Slot}
    (h : Placed start ⟨first, slots⟩) (hs : ∀ s ∈ slots, s.IsPlaceholder) :
    (slots.map Slot.position).Pairwise (· < ·) := by
  induction slots generalizing first with
  | nil => exact List.Pairwise.nil
  | cons s slots ih =>
    simp only [List.mem_cons, forall_eq_or_imp] at hs
    refine List.pairwise_cons.2 ⟨?_, ih h.rest hs.2⟩
    intro p hp
    obtain ⟨r, hr, rfl⟩ := List.mem_map.1 hp
    obtain ⟨before, after, rfl⟩ := List.append_of_mem hr
    have hpos := hs.1.byteLength_pos
    rw [h [] s _ rfl, h.rest before r after rfl]
    simp only [List.flatMap_nil, List.append_nil, byteLength_append]
    omega

/-- What a layout of a template is, compilation apart. -/
structure IsOf (l : Layout) (template : List Char) : Prop where
  text_eq : l.text = template
  placed : l.Placed 0
  increasing : (l.slots.map Slot.position).Pairwise (· < ·)
  isPlaceholder : ∀ s ∈ l.slots, s.IsPlaceholder

theorem isOf_ofPieces {ps : List Piece} {template : List Char} (h : Tiles 0 ps template) :
    (ofPieces ps).IsOf template where
  text_eq := text_ofPieces h
  placed := placed_ofPieces h
  increasing := (placed_ofPieces h).increasing (isPlaceholder_ofPieces h)
  isPlaceholder := isPlaceholder_ofPieces h

end Layout

theorem fill_ofPieces (b : Bindings) (ps : List Piece)
    (h : ∀ s ∈ (Layout.ofPieces ps).slots, b.contains s.name) :
    fill b ps = .ok ((Layout.ofPieces ps).filled b) := by
  induction ps with
  | nil => rfl
  | cons piece ps ih =>
    cases piece with
    | literal text =>
      simp [fill, ih h, Layout.ofPieces, Layout.filled, Except.map]
    | placeholder name position source =>
      simp only [Layout.ofPieces, List.mem_cons, forall_eq_or_imp] at h
      obtain ⟨hn, hs⟩ := h
      obtain ⟨v, hv⟩ := Option.isSome_iff_exists.1 hn
      simp [fill, hv, ih hs, Layout.ofPieces, Layout.filled, rendered, Except.map]

/-- The first placeholder without a variable is what a failed compilation names. -/
theorem fill_ofPieces_missing (b : Bindings) (ps : List Piece) {before after : List Slot} {s : Slot}
    (hs : (Layout.ofPieces ps).slots = before ++ s :: after)
    (hb : ∀ r ∈ before, b.contains r.name) (hm : b.contains s.name = false) :
    fill b ps = .error (.unresolvedVariable s.name s.position) := by
  induction ps generalizing before with
  | nil => simp [Layout.ofPieces] at hs
  | cons piece ps ih =>
    cases piece with
    | literal text =>
      simp [fill, ih hs hb, Except.map]
    | placeholder name position source =>
      cases before with
      | nil =>
        obtain ⟨rfl, -⟩ := List.cons.inj hs
        have hnone : b.get? (String.ofList name) = none := by simpa [Bindings.contains] using hm
        simp [fill, hnone]
      | cons r before =>
        simp only [Layout.ofPieces, List.cons_append, List.cons.injEq] at hs
        obtain ⟨rfl, hs⟩ := hs
        simp only [List.mem_cons, forall_eq_or_imp] at hb
        obtain ⟨hn, hb⟩ := hb
        obtain ⟨v, hv⟩ := Option.isSome_iff_exists.1 hn
        simp [fill, hv, ih hs hb, Except.map]

/-- Compilation fills a layout that the template alone determines, for every table and whatever its
values contain; it fails at the first missing variable, and at a template that does not scan before
any variable is looked up. -/
theorem compile_eq_fill_layout (template : String) :
    (∀ ps, pieces template.toList = .ok ps →
      (Layout.ofPieces ps).IsOf template.toList ∧
        ∀ b : Bindings,
          ((∀ s ∈ (Layout.ofPieces ps).slots, b.contains s.name) →
            compile template b = .ok (String.ofList ((Layout.ofPieces ps).filled b))) ∧
          ∀ before s after, (Layout.ofPieces ps).slots = before ++ s :: after →
            (∀ r ∈ before, b.contains r.name) → b.contains s.name = false →
              compile template b = .error (.unresolvedVariable s.name s.position)) ∧
      ∀ e, pieces template.toList = .error e →
        (∃ p, e = .unterminatedPlaceholder p) ∧ ∀ b, compile template b = .error e := by
  constructor
  · intro ps hps
    have hc : ∀ b, compile template b = (fill b ps).map String.ofList := by
      intro b
      rw [compile, hps]
      rfl
    refine ⟨Layout.isOf_ofPieces (pieces_tiles hps), fun b => ⟨fun hb => ?_, ?_⟩⟩
    · rw [hc, fill_ofPieces b ps hb]
      rfl
    · intro before s after hl hb hm
      rw [hc, fill_ofPieces_missing b ps hl hb hm]
      rfl
  · intro e he
    obtain ⟨p, rfl, -⟩ := (cut_eq_error_iff (Unclosed.none _) e).1 he
    refine ⟨⟨p, rfl⟩, fun b => ?_⟩
    rw [compile, he]
    rfl

/-- A value that looks like a placeholder stays as it is, a missing name is reported at its first
place, and an opener left open comes before missing names. -/
theorem compile_eq_fill_layout_at_braces :
    compile "\x7b\x7ba\x7d\x7d-\x7b\x7b a \x7d\x7d"
        (.ofList [("a", .text "\x7b\x7bb\x7d\x7d")]) =
        .ok "\x7b\x7bb\x7d\x7d-\x7b\x7bb\x7d\x7d" ∧
      compile "\x7b\x7ba\x7d\x7d-\x7b\x7b b \x7d\x7d" (.ofList [("a", .text "")]) =
        .error (.unresolvedVariable "b" 6) ∧
      ∀ b, compile "\x7b\x7ba\x7d\x7d\x7b\x7b" b = .error (.unterminatedPlaceholder 5) := by
  refine ⟨?_, ?_, ?_⟩
  · exact (((compile_eq_fill_layout "\x7b\x7ba\x7d\x7d-\x7b\x7b a \x7d\x7d").1 _ (by rfl)).2
      (.ofList [("a", .text "\x7b\x7bb\x7d\x7d")])).1 (by decide)
  · exact (((compile_eq_fill_layout "\x7b\x7ba\x7d\x7d-\x7b\x7b b \x7d\x7d").1 _ (by rfl)).2
      (.ofList [("a", .text "")])).2 [⟨"a", 0, "\x7b\x7ba\x7d\x7d".toList, ['-']⟩]
        ⟨"b", 6, "\x7b\x7b b \x7d\x7d".toList, []⟩ [] (by rfl) (by decide) (by decide)
  · exact ((compile_eq_fill_layout "\x7b\x7ba\x7d\x7d\x7b\x7b").2 _ (by rfl)).2

end AgentPrompt.Template
