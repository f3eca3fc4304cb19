import AgentPrompt.Proofs.Template.Names

/-! Behind a template that scans the scanner stands outside every placeholder, so it reads on as it
would read a template of its own, except that offsets count from further back and that literal text
may go on. -/
namespace AgentPrompt

/-- The error of a template that begins `n` bytes further back. -/
def Error.later (n : Nat) : Error → Error
  | .unresolvedVariable name position => .unresolvedVariable name (position + n)
  | .unterminatedPlaceholder position => .unterminatedPlaceholder (position + n)
  | e => e

namespace Template

/-- No pair of opening braces is split between the texts. -/
def Seamless (s t : List Char) : Prop :=
  ¬ (s.getLast? = some '\x7b' ∧ t.head? = some '\x7b')

def Piece.later (n : Nat) : Piece → Piece
  | .literal text => .literal text
  | .placeholder name position source => .placeholder name (position + n) source

def Opened.later (n : Nat) (o : Opened) : Opened :=
  { o with position := o.position + n }

/-- Literal text in front of pieces, joined to a literal piece that they begin with. -/
def weld (text : List Char) : List Piece → List Piece
  | .literal more :: ps => .literal (text ++ more) :: ps
  | ps => literalOf text.reverse ++ ps

theorem Seamless.tail {c : Char} {s t : List Char} (h : Seamless (c :: s) t) : Seamless s t := by
  rintro ⟨hs, ht⟩
  refine h ⟨?_, ht⟩
  cases s with
  | nil => cases hs
  | cons d s => rwa [List.getLast?_cons_cons]

/-! ## The scanner behind a text that scans -/

theorem weld_literalOf_append (old new : List Char) (ps : List Piece)
    (h : ∀ more, ps.head? ≠ some (.literal more)) :
    weld old.reverse (literalOf new ++ ps) = literalOf (new ++ old) ++ ps := by
  cases new with
  | nil =>
    cases ps with
    | nil => simp [weld, literalOf]
    | cons p ps =>
      cases p with
      | literal more => exact absurd rfl (h more)
      | placeholder name position source => simp [weld, literalOf]
  | cons c new => simp [weld, literalOf]

/-- The literal text before a scan stays in front of what the scan returns. -/
theorem cut_weld (offset : Nat) (text old : List Char) (open? : Option Opened) (s : List Char) :
    cut offset (text ++ old) open? s = (cut offset text open? s).map (weld old.reverse) := by
  fun_induction cut offset text open? s with
  | case1 offset text =>
    have hweld := weld_literalOf_append old text [] (by simp)
    simp only [List.append_nil] at hweld
    rw [cut, Except.map, hweld]
  | case2 offset text o => rfl
  | case3 offset text rest ih => rw [cut, ih]
  | case4 offset text o rest ih =>
    rw [cut, ← ih]
    simp
  | case5 offset text o rest trimmed hname =>
    simp only [cut, trimmed, hname, if_true]
    cases cut (offset + 2) [] none rest with
    | error e => rfl
    | ok more =>
      simp only [Except.map]
      rw [weld_literalOf_append old text _ (by simp)]
  | case6 offset text o rest trimmed hname =>
    rename_i ih
    simp only [cut, trimmed, hname, Bool.false_eq_true, if_false]
    rw [← ih]
    simp
  | case7 offset text c rest hc ih =>
    rw [cut, ← ih]
    · rfl
    · exact hc
  | case8 offset text o c rest hc hc' ih =>
    rw [cut, ih]
    · exact hc
    · exact hc'

theorem map_later_literalOf (n : Nat) (text : List Char) :
    (literalOf text).map (Piece.later n) = literalOf text := by
  unfold literalOf
  split <;> rfl

def laterPieces (n : Nat) (r : Except Error (List Piece)) : Except Error (List Piece) :=
  (r.map (List.map (Piece.later n))).mapError (Error.later n)

/-- A scan that starts further back moves every offset, and does nothing else. -/
theorem cut_later (n offset : Nat) (text : List Char) (open? : Option Opened) (s : List Char) :
    cut (offset + n) text (open?.map (Opened.later n)) s =
      laterPieces n (cut offset text open? s) := by
  fun_induction cut offset text open? s with
  | case1 offset text =>
    simp [cut, laterPieces, Except.map, Except.mapError, map_later_literalOf]
  | case2 offset text o => rfl
  | case3 offset text rest ih =>
    rw [← ih, Option.map_none, cut, Nat.add_right_comm]
    rfl
  | case4 offset text o rest ih =>
    rw [← ih, Option.map_some, cut, Nat.add_right_comm]
    rfl
  | case5 offset text o rest trimmed hname =>
    rename_i ih
    have hbody : isName (Text.trim (o.later n).body.reverse) = true := hname
    rw [Option.map_none, ← Nat.add_right_comm] at ih
    simp only [Option.map_some, cut, hbody, if_true, ih]
    cases cut (offset + 2) [] none rest with
    | error e => rfl
    | ok more =>
      simp only [laterPieces, Except.map, Except.mapError, List.map_append, List.map_cons,
        map_later_literalOf]
      rfl
  | case6 offset text o rest trimmed hname =>
    rename_i ih
    have hbody : ¬ isName (Text.trim (o.later n).body.reverse) = true := hname
    simp only [Option.map_some, cut, hbody, Bool.false_eq_true, if_false]
    rw [← ih, Option.map_none, Nat.add_right_comm]
    rfl
  | case7 offset text c rest hc ih =>
    rw [← ih, Option.map_none, cut, Nat.add_right_comm]
    exact hc
  | case8 offset text o c rest hc hc' ih =>
    rw [← ih, Option.map_some, cut, Nat.add_right_comm]
    · rfl
    · exact hc
    · exact hc'

/-- Where no pair of the given braces begins, none begins when more text follows. -/
theorem no_pair_append {b c : Char} {rest t : List Char}
    (hc : ∀ more, c = b → rest = b :: more → False) (hrest : rest = [] → c = b → t.head? ≠ some b) :
    ∀ more, c = b → rest ++ t = b :: more → False := by
  intro more he hpair
  cases rest with
  | nil => exact hrest rfl he (by rw [List.nil_append] at hpair; rw [hpair]; rfl)
  | cons d rest =>
    obtain ⟨rfl, -⟩ := List.cons.inj hpair
    exact hc rest he rfl

/-- A scan that succeeds ends outside every placeholder, with literal text still open, and reads on
from there when more text follows. -/
theorem cut_append {offset : Nat} {text : List Char} {open? : Option Opened} {s t : List Char}
    {ps : List Piece} (h : cut offset text open? s = .ok ps) (hseam : Seamless s t) :
    ∃ front tail, ps = front ++ literalOf tail ∧
      cut offset text open? (s ++ t) =
        (cut (offset + byteLength s) tail none t).map (front ++ ·) := by
  have hopener : ∀ rest, byteLength ('\x7b' :: '\x7b' :: rest) = 2 + byteLength rest := fun rest =>
    (byteLength_append opener rest).trans (by rw [byteLength_opener])
  have hcloser : ∀ rest, byteLength ('\x7d' :: '\x7d' :: rest) = 2 + byteLength rest := fun rest =>
    (byteLength_append closer rest).trans (by rw [byteLength_closer])
  fun_induction cut offset text open? s generalizing ps with
  | case1 offset text =>
    obtain rfl := Except.ok.inj h
    refine ⟨[], text, rfl, ?_⟩
    cases hcut : cut offset text none t <;> simp [hcut, Except.map]
  | case2 offset text o => cases h
  | case3 offset text rest ih =>
    obtain ⟨front, tail, rfl, hcut⟩ := ih h hseam.tail.tail
    refine ⟨front, tail, rfl, ?_⟩
    rw [List.cons_append, List.cons_append, cut, hcut, hopener, Nat.add_assoc]
  | case4 offset text o rest ih =>
    obtain ⟨front, tail, rfl, hcut⟩ := ih h hseam.tail.tail
    refine ⟨front, tail, rfl, ?_⟩
    rw [List.cons_append, List.cons_append, cut, hcut, hopener, Nat.add_assoc]
  | case5 offset text o rest trimmed hname =>
    rename_i ih
    obtain ⟨more, hmore, rfl⟩ := Except.map_eq_ok_iff.1 h
    obtain ⟨front, tail, rfl, hcut⟩ := ih hmore hseam.tail.tail
    refine ⟨literalOf text ++ .placeholder trimmed o.position (opener ++ o.body.reverse ++ closer) ::
      front, tail, by simp, ?_⟩
    rw [List.cons_append, List.cons_append, cut, if_pos hname, hcut, hcloser, Nat.add_assoc]
    cases cut (offset + (2 + byteLength rest)) tail none t <;> simp [Except.map, trimmed]
  | case6 offset text o rest trimmed hname =>
    rename_i ih
    obtain ⟨front, tail, rfl, hcut⟩ := ih h hseam.tail.tail
    refine ⟨front, tail, rfl, ?_⟩
    rw [List.cons_append, List.cons_append, cut, if_neg hname, hcut, hcloser, Nat.add_assoc]
  | case7 offset text c rest hc ih =>
    obtain ⟨front, tail, rfl, hcut⟩ := ih h hseam.tail
    refine ⟨front, tail, rfl, ?_⟩
    have hpair : rest = [] → c = '\x7b' → t.head? ≠ some '\x7b' := by
      rintro rfl rfl ht
      exact hseam ⟨rfl, ht⟩
    rw [List.cons_append, cut, hcut, byteLength_cons, Nat.add_assoc]
    exact no_pair_append hc hpair
  | case8 offset text o c rest hc hc' ih =>
    -- An open placeholder has to be closed, so something is left of the text.
    have hne : rest ≠ [] := by
      rintro rfl
      cases h
    obtain ⟨front, tail, rfl, hcut⟩ := ih h hseam.tail
    refine ⟨front, tail, rfl, ?_⟩
    rw [List.cons_append, cut, hcut, byteLength_cons, Nat.add_assoc]
    · exact no_pair_append hc fun hr => absurd hr hne
    · exact no_pair_append hc' fun hr => absurd hr hne

/-- The pieces of two templates written one after the other. -/
theorem pieces_append {s t : List Char} {ps : List Piece} (h : pieces s = .ok ps)
    (hseam : Seamless s t) :
    ∃ front tail, ps = front ++ literalOf tail ∧
      pieces (s ++ t) =
        (laterPieces (byteLength s) (pieces t)).map fun qs => front ++ weld tail.reverse qs := by
  obtain ⟨front, tail, rfl, hcut⟩ := cut_append h hseam
  refine ⟨front, tail, rfl, ?_⟩
  have hlater := cut_later (byteLength s) 0 [] none t
  have hweld := cut_weld (0 + byteLength s) [] tail none t
  rw [Option.map_none] at hlater
  rw [List.nil_append, hlater] at hweld
  rw [pieces, hcut, hweld, ← pieces]
  cases laterPieces (byteLength s) (pieces t) <;> rfl

/-! ## Names and texts of the pieces -/

theorem filterMap_name?_literalOf (text : List Char) :
    (literalOf text).filterMap Piece.name? = [] := by
  unfold literalOf
  split <;> rfl

theorem filterMap_name?_weld (text : List Char) (ps : List Piece) :
    (weld text ps).filterMap Piece.name? = ps.filterMap Piece.name? := by
  unfold weld
  split
  · rfl
  · rw [List.filterMap_append, filterMap_name?_literalOf, List.nil_append]

theorem filterMap_name?_later (n : Nat) (ps : List Piece) :
    (ps.map (Piece.later n)).filterMap Piece.name? = ps.filterMap Piece.name? := by
  rw [List.filterMap_map]
  congr 1
  funext p
  cases p <;> rfl

section
variable (b : Bindings)

theorem fill_append (ps qs : List Piece) :
    fill b (ps ++ qs) = fill b ps >>= fun front => (fill b qs).map (front ++ ·) := by
  induction ps with
  | nil => cases hq : fill b qs <;> simp [fill, hq, bind, Except.bind, Except.map]
  | cons p ps ih =>
    cases p with
    | literal text =>
      rw [List.cons_append, fill, fill, ih]
      cases fill b ps <;> cases fill b qs <;> simp [bind, Except.bind, Except.map]
    | placeholder name position source =>
      rw [List.cons_append, fill, fill, ih]
      cases b.get? (String.ofList name) with
      | none => rfl
      | some v => cases fill b ps <;> cases fill b qs <;> simp [bind, Except.bind, Except.map]

theorem fill_weld (text : List Char) (ps : List Piece) :
    fill b (weld text ps) = fill b (literalOf text.reverse ++ ps) := by
  unfold weld
  split
  · rename_i more ps
    cases text with
    | nil => rfl
    | cons c text => cases hp : fill b ps <;> simp [literalOf, fill, hp, Except.map]
  · rfl

theorem fill_later (n : Nat) (ps : List Piece) :
    fill b (ps.map (Piece.later n)) = (fill b ps).mapError (Error.later n) := by
  induction ps with
  | nil => rfl
  | cons p ps ih =>
    cases p with
    | literal text =>
      rw [List.map_cons, Piece.later, fill, fill, ih]
      cases fill b ps <;> rfl
    | placeholder name position source =>
      rw [List.map_cons, Piece.later, fill, fill, ih]
      cases b.get? (String.ofList name) with
      | none => rfl
      | some v => cases fill b ps <;> rfl

end

/-- Names that are added to others are the new ones among them, each once. -/
theorem addNew_eq (seen names : List String) :
    addNew seen names = seen ++ (addNew [] names).filter fun n => n ∉ seen := by
  induction names generalizing seen with
  | nil => simp [addNew]
  | cons n names ih =>
    have hone : addNew [] (n :: names) = n :: (addNew [] names).filter fun m => m ∉ [n] :=
      ih [n]
    rw [hone, addNew_cons, List.filter_cons, List.filter_filter]
    by_cases hn : n ∈ seen
    · have hsame : ∀ m, (decide (m ∉ seen) && decide (m ∉ [n])) = decide (m ∉ seen) := by
        intro m
        by_cases hm : m = n
        · simp [hm, hn]
        · simp [hm]
      simp only [hn, hsame, if_true, not_true_eq_false, decide_false, Bool.false_eq_true, if_false]
      exact ih seen
    · have hsame : ∀ m, (decide (m ∉ seen) && decide (m ∉ [n])) = decide (m ∉ seen ++ [n]) := by
        intro m
        simp [not_or]
      simp only [hn, hsame, if_false, not_false_eq_true, decide_true, if_true]
      rw [ih (seen ++ [n]), List.append_assoc, List.singleton_append]

/-! ## Two templates -/

section
variable {t₁ t₂ : String} {ps₁ : List Piece} (h₁ : pieces t₁.toList = .ok ps₁)
  (hseam : Seamless t₁.toList t₂.toList)
include h₁ hseam

theorem pieces_append_of_error {e : Error} (h₂ : pieces t₂.toList = .error e) :
    pieces (t₁ ++ t₂).toList = .error (e.later t₁.utf8ByteSize) := by
  obtain ⟨front, tail, -, happend⟩ := pieces_append h₁ hseam
  rw [String.toList_append, happend, h₂, byteLength, String.ofList_toList]
  rfl

/-- The pieces of two templates are filled side by side. -/
theorem exists_pieces_append {ps₂ : List Piece} (h₂ : pieces t₂.toList = .ok ps₂) :
    ∃ ps, pieces (t₁ ++ t₂).toList = .ok ps ∧
      ps.filterMap Piece.name? = ps₁.filterMap Piece.name? ++ ps₂.filterMap Piece.name? ∧
      ∀ b, fill b ps = fill b ps₁ >>= fun a₁ =>
        ((fill b ps₂).mapError (Error.later t₁.utf8ByteSize)).map (a₁ ++ ·) := by
  obtain ⟨front, tail, rfl, happend⟩ := pieces_append h₁ hseam
  rw [h₂, byteLength, String.ofList_toList] at happend
  refine ⟨_, by rw [String.toList_append]; exact happend, ?_, fun b => ?_⟩
  · simp only [List.filterMap_append, filterMap_name?_weld, filterMap_name?_later,
      filterMap_name?_literalOf, List.append_nil]
  · rw [← fill_later, ← fill_append, List.append_assoc, fill_append, fill_append, fill_weld,
      List.reverse_reverse]

theorem placeholders_append {ps₂ : List Piece} (h₂ : pieces t₂.toList = .ok ps₂) :
    placeholders (t₁ ++ t₂) = .ok (names ps₁ ++ (names ps₂).filter fun n => n ∉ names ps₁) := by
  obtain ⟨ps, hps, hnames, -⟩ := exists_pieces_append h₁ hseam h₂
  rw [placeholders, hps, Except.map, names_eq, hnames, addNew, List.foldl_append]
  exact congrArg _ (addNew_eq _ _)

theorem compile_append {ps₂ : List Piece} (h₂ : pieces t₂.toList = .ok ps₂) (b : Bindings) :
    compile (t₁ ++ t₂) b = compile t₁ b >>= fun a₁ =>
      ((compile t₂ b).mapError (Error.later t₁.utf8ByteSize)).map (a₁ ++ ·) := by
  obtain ⟨ps, hps, -, hfill⟩ := exists_pieces_append h₁ hseam h₂
  rw [compile_eq_map_fill hps, compile_eq_map_fill h₁, compile_eq_map_fill h₂, hfill]
  cases fill b ps₁ <;> cases fill b ps₂ <;>
    simp [bind, Except.bind, Except.map, Except.mapError, String.ofList_append]

end

/-- Two templates between which no pair of opening braces is split compile side by side, if the first
one scans. An opener that the second leaves open comes first, then what the first lacks, then what the
second lacks, with the offsets of the second counted on behind the first. -/
theorem compile_side_by_side (t₁ t₂ : String) (b : Bindings) (names₁ : List String)
    (hscan : placeholders t₁ = .ok names₁)
    (hseam : ¬ (t₁.toList.getLast? = some '\x7b' ∧ t₂.toList.head? = some '\x7b')) :
    (∀ a₁ a₂, compile t₁ b = .ok a₁ → compile t₂ b = .ok a₂ →
        compile (t₁ ++ t₂) b = .ok (a₁ ++ a₂)) ∧
      (∀ p, placeholders t₂ = .error (.unterminatedPlaceholder p) →
        placeholders (t₁ ++ t₂) = .error (.unterminatedPlaceholder (p + t₁.utf8ByteSize)) ∧
          compile (t₁ ++ t₂) b = .error (.unterminatedPlaceholder (p + t₁.utf8ByteSize))) ∧
      (∀ names₂ name p, placeholders t₂ = .ok names₂ →
        compile t₁ b = .error (.unresolvedVariable name p) →
          compile (t₁ ++ t₂) b = .error (.unresolvedVariable name p)) ∧
      (∀ a₁ name p, compile t₁ b = .ok a₁ → compile t₂ b = .error (.unresolvedVariable name p) →
        compile (t₁ ++ t₂) b = .error (.unresolvedVariable name (p + t₁.utf8ByteSize))) ∧
      ∀ names₂, placeholders t₂ = .ok names₂ →
        placeholders (t₁ ++ t₂) = .ok (names₁ ++ names₂.filter fun n => n ∉ names₁) := by
  obtain ⟨ps₁, h₁, rfl⟩ := placeholders_eq_ok_iff.1 hscan
  cases h₂ : pieces t₂.toList with
  | error e =>
    obtain ⟨⟨p, rfl⟩, hplaceholders, hcompile⟩ := exists_unterminated h₂
    obtain ⟨-, hplaceholders', hcompile'⟩ :=
      exists_unterminated (pieces_append_of_error h₁ hseam h₂)
    rw [hplaceholders, hcompile]
    refine ⟨by simp, fun q hq => ?_, by simp, by simp, by simp⟩
    obtain rfl := Error.unterminatedPlaceholder.inj (Except.error.inj hq)
    exact ⟨hplaceholders', hcompile' b⟩
  | ok ps₂ =>
    have hnames : placeholders t₂ = .ok (names ps₂) := by rw [placeholders, h₂, Except.map]
    rw [hnames, compile_append h₁ hseam h₂ b, placeholders_append h₁ hseam h₂]
    refine ⟨fun a₁ a₂ ha₁ ha₂ => ?_, by simp, fun _ name p _ he => ?_, fun a₁ name p ha₁ he => ?_, ?_⟩
    · rw [ha₁, ha₂]
      rfl
    · rw [he]
      rfl
    · rw [ha₁, he]
      rfl
    · rintro _ ⟨⟩
      rfl

/-- Stray braces on both sides of the seam, a two-byte character before it, and an opener that the
second template leaves open although the first lacks a variable. -/
theorem compile_side_by_side_stray :
    compile ("é\x7b\x7ba\x7d\x7d\x7d" ++ "\x7d\x7b\x7bb\x7d\x7d") (.ofList [("a", .text "1")]) =
        .error (.unresolvedVariable "b" 9) ∧
      (∀ b, compile ("\x7b\x7ba\x7d\x7d" ++ "\x7b\x7b\x7b") b =
        .error (.unterminatedPlaceholder 5)) ∧
      placeholders ("\x7b\x7ba\x7d\x7d\x7b" ++ "b\x7b\x7bc\x7d\x7d\x7b\x7ba\x7d\x7d") =
        .ok ["a", "c"] := by
  refine ⟨?_, fun b => ?_, ?_⟩
  · exact (compile_side_by_side _ _ _ ["a"] (by rfl) (by decide)).2.2.2.1 "é1\x7d" "b" 1 (by rfl)
      (by rfl)
  · exact ((compile_side_by_side _ _ b ["a"] (by rfl) (by decide)).2.1 0 (by rfl)).2
  · exact (compile_side_by_side _ _ .empty ["a"] (by rfl) (by decide)).2.2.2.2 ["c", "a"] (by rfl)

end Template
end AgentPrompt
