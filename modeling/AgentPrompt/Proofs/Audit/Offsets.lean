import AgentPrompt.Proofs.Audit.Soundness
import AgentPrompt.Proofs.Template.Grammar

/-! The search for headers, done with offsets into one text. A slice of a text may fail; no slice
taken here does. -/
namespace AgentPrompt.Audit
open Template (byteLength)

inductive SliceFault where
  | outOfRange
  | insideCharacter
  deriving DecidableEq, Repr

/-- Cuts a text at a byte offset. -/
def splitAtByte (offset : Nat) : List Char → Except SliceFault (List Char × List Char)
  | [] => if offset = 0 then .ok ([], []) else .error .outOfRange
  | c :: s =>
    if offset = 0 then .ok ([], c :: s)
    else if offset < c.utf8Size then .error .insideCharacter
    else (splitAtByte (offset - c.utf8Size) s).map fun p => (c :: p.1, p.2)

def slice (s : List Char) (start stop : Nat) : Except SliceFault (List Char) := do
  let (front, _) ← splitAtByte stop s
  let (_, part) ← splitAtByte start front
  return part

/-- The offsets of the occurrences of `part`, from left to right and without overlap. `offset` is
that of the text itself; `skip` characters of an occurrence just met are left to pass. -/
def matchOffsets (part : List Char) (skip offset : Nat) : List Char → List Nat
  | [] => []
  | c :: rest =>
    match skip with
    | skip + 1 => matchOffsets part skip (offset + c.utf8Size) rest
    | 0 =>
      if part.isPrefixOf (c :: rest) then
        offset :: matchOffsets part (part.length - 1) (offset + c.utf8Size) rest
      else matchOffsets part 0 (offset + c.utf8Size) rest

def startsLineAt (s : List Char) (offset : Nat) : Except SliceFault Bool :=
  if offset = 0 then .ok true
  else (slice s 0 offset).map fun before => before.getLast? == some '\n'

/-- Where the first occurrence from the cursor on stands that starts a line. -/
def headerOffset (s part : List Char) (cursor : Nat) : Except SliceFault (Option Nat) := do
  let rest ← slice s cursor (byteLength s)
  (matchOffsets part 0 cursor rest).findM? (startsLineAt s)

def headerOffsets (s : List Char) :
    List (List Char) → Nat → Except SliceFault (Option (List Nat))
  | [], _ => .ok (some [])
  | h :: headers, cursor => do
    match ← headerOffset s h cursor with
    | none => return none
    | some found =>
      let more ← headerOffsets s headers (found + byteLength h)
      return more.map (found :: ·)

/-- Cuts a text at these offsets. The last section reaches to its end. -/
def blocksAt (s : List Char) : List Nat → Except SliceFault (List (List Char))
  | [] => .ok []
  | [start] => do return [← slice s start (byteLength s)]
  | start :: next :: more => do
    let block ← slice s start next
    return block :: (← blocksAt s (next :: more))

/-- The sections that these headers open, by their offsets. -/
def sectionsByOffset (s : List Char) (headers : List (List Char)) :
    Except SliceFault (Option (List (List Char))) := do
  match ← headerOffsets s headers 0 with
  | none => return none
  | some starts => return some (← blocksAt s starts)

/-! ## Slices between bounds of characters -/

theorem splitAtByte_append (a b : List Char) : splitAtByte (byteLength a) (a ++ b) = .ok (a, b) := by
  induction a with
  | nil => cases b <;> simp [splitAtByte]
  | cons c a ih =>
    have hpos := c.utf8Size_pos
    have hne : byteLength (c :: a) ≠ 0 := by
      rw [Template.byteLength_cons]
      omega
    have hlt : ¬ byteLength (c :: a) < c.utf8Size := by
      rw [Template.byteLength_cons]
      omega
    rw [List.cons_append, splitAtByte, if_neg hne, if_neg hlt, Template.byteLength_cons,
      Nat.add_sub_cancel_left, ih]
    rfl

theorem slice_append (a b c : List Char) :
    slice (a ++ b ++ c) (byteLength a) (byteLength a + byteLength b) = .ok b := by
  rw [slice, ← Template.byteLength_append, splitAtByte_append]
  simp only [bind, Except.bind, splitAtByte_append]
  rfl

theorem slice_to_end (a b : List Char) :
    slice (a ++ b) (byteLength a) (byteLength (a ++ b)) = .ok b := by
  have h := slice_append a b []
  rwa [List.append_nil, ← Template.byteLength_append] at h

theorem startsLineAt_append {fresh : Bool} {front : List Char} (h : fresh = true ↔ StartsLine front)
    (rest : List Char) : startsLineAt (front ++ rest) (byteLength front) = .ok fresh := by
  cases front with
  | nil =>
    have hfresh : fresh = true := h.2 (Or.inl rfl)
    simp [startsLineAt, hfresh]
  | cons c front =>
    have hpos := c.utf8Size_pos
    have hne : byteLength (c :: front) ≠ 0 := by
      rw [Template.byteLength_cons]
      omega
    have hslice := slice_append [] (c :: front) rest
    rw [List.nil_append, Template.byteLength_nil, Nat.zero_add] at hslice
    have hlast : ((c :: front).getLast? == some '\n') = fresh := by
      rw [Bool.eq_iff_iff, h, beq_iff_eq, StartsLine]
      simp
    rw [startsLineAt, if_neg hne, hslice, Except.map, hlast]

/-! ## One header -/

/-- Looking up the occurrences and reading what stands before each finds the place that the search
through the characters cuts at. -/
theorem findM?_matchOffsets {s front rest : List Char} (hs : s = front ++ rest)
    (part : List Char) (skip : Nat) {fresh : Bool} (hfresh : fresh = true ↔ StartsLine front) :
    (matchOffsets part skip (byteLength front) rest).findM? (startsLineAt s) =
      .ok ((cutAt part skip fresh rest).map fun p => byteLength front + byteLength p.1) := by
  induction rest generalizing front skip fresh with
  | nil => rfl
  | cons c rest ih =>
    have hsize : byteLength front + c.utf8Size = byteLength (front ++ [c]) := by
      simp
    have hnext : (c == '\n') = true ↔ StartsLine (front ++ [c]) := by
      simp [StartsLine]
    -- One character further on, with any number of characters left to pass.
    have later : ∀ k, (matchOffsets part k (byteLength front + c.utf8Size) rest).findM?
        (startsLineAt s) = .ok (((cutAt part k (c == '\n') rest).map fun p => (c :: p.1, p.2)).map
          fun p => byteLength front + byteLength p.1) := by
      intro k
      rw [hsize, ih (by simp [hs]) k hnext, Option.map_map]
      congr 2
      funext p
      simp [Nat.add_assoc]
    cases skip with
    | succ skip => exact later skip
    | zero =>
      simp only [matchOffsets, cutAt]
      split
      · have hstart : startsLineAt s (byteLength front) = .ok fresh := by
          rw [hs]
          exact startsLineAt_append hfresh (c :: rest)
        rw [List.findM?, hstart]
        cases fresh with
        | true => simp [bind, Except.bind, pure, Except.pure]
        | false => exact later (part.length - 1)
      · exact later 0

theorem headerOffset_append {front : List Char} (hfront : StartsLine front)
    (part rest : List Char) :
    headerOffset (front ++ rest) part (byteLength front) =
      .ok ((cutAt part 0 true rest).map fun p => byteLength front + byteLength p.1) := by
  have hfresh : true = true ↔ StartsLine front := by simpa using hfront
  rw [headerOffset, slice_to_end]
  exact findM?_matchOffsets rfl part 0 hfresh

/-! ## All headers -/

/-- The offsets of texts that stand one after the other. -/
def startsFrom (offset : Nat) : List (List Char) → List Nat
  | [] => []
  | text :: texts => offset :: startsFrom (offset + byteLength text) texts

theorem headerOffsets_append {front : List Char} (hfront : StartsLine front) (tools : List Tool)
    (rest : List Char) :
    headerOffsets (front ++ rest) (tools.map header) (byteLength front) =
      .ok ((sectionsAfter (tools.map header) rest).map fun p =>
        startsFrom (byteLength front + byteLength p.1) p.2) := by
  induction tools generalizing front rest with
  | nil => rfl
  | cons t tools ih =>
    rw [List.map_cons, headerOffsets, headerOffset_append hfront, sectionsAfter]
    cases hc : cutAt (header t) 0 true rest with
    | none => rfl
    | some cut =>
      obtain ⟨before, after⟩ := cut
      obtain ⟨rfl, -, hbefore⟩ := cutAt_eq_some hc
      -- The cursor behind a header stands at the start of a line, as the one before it did.
      have hstart : StartsLine (front ++ (before ++ header t)) :=
        hfront.append (hbefore.append (startsLine_header t))
      have hmore := ih hstart after
      rw [List.append_assoc, Template.byteLength_append, Template.byteLength_append,
        ← Nat.add_assoc] at hmore
      simp only [Option.map_some, bind, Except.bind, hmore, pure, Except.pure, Option.bind_some]
      cases sectionsAfter (tools.map header) after with
      | none => rfl
      | some p => simp [startsFrom, Nat.add_assoc]

theorem blocksAt_startsFrom (front : List Char) (texts : List (List Char)) :
    blocksAt (front ++ texts.flatten) (startsFrom (byteLength front) texts) = .ok texts := by
  induction texts generalizing front with
  | nil => rfl
  | cons text texts ih =>
    cases texts with
    | nil =>
      simp only [startsFrom, blocksAt, List.flatten_cons, List.flatten_nil, List.append_nil,
        slice_to_end]
      rfl
    | cons next texts =>
      have hmore := ih (front ++ text)
      rw [Template.byteLength_append, List.append_assoc, ← List.flatten_cons, startsFrom] at hmore
      have hblock := slice_append front text (next :: texts).flatten
      rw [List.append_assoc, ← List.flatten_cons] at hblock
      rw [startsFrom, startsFrom, blocksAt, hblock]
      simp only [bind, Except.bind, hmore]
      rfl

/-- Every slice succeeds, and the sections are the same. -/
theorem sectionsByOffset_eq (s : List Char) (tools : List Tool) :
    sectionsByOffset s (tools.map header) = .ok (sections s tools) := by
  have hoffsets := headerOffsets_append (Or.inl rfl : StartsLine []) tools s
  rw [List.nil_append, Template.byteLength_nil] at hoffsets
  rw [sectionsByOffset, hoffsets, sections]
  cases h : sectionsAfter (tools.map header) s with
  | none => rfl
  | some p =>
    obtain ⟨before, texts⟩ := p
    obtain ⟨rfl, -⟩ := sectionsAfter_eq_some (Or.inl rfl : StartsLine []) h
    have hblocks := blocksAt_startsFrom before texts
    simp only [Option.map_some, bind, Except.bind, Nat.zero_add, hblocks]
    rfl

end AgentPrompt.Audit
