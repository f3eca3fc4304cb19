import AgentPrompt.Proofs.Yaml.Fields
import AgentPrompt.Yaml.Decode
import Mathlib.Data.List.Forall2
import Mathlib.Data.List.Nodup

namespace AgentPrompt.Yaml

def textNode (s : String) : Node :=
  .scalar none (styleOf s.toList) s.toList

namespace Content

def node : Content → Node
  | text s => textNode s
  | list items => .sequence (items.map textNode)

def entry (f : String × Content) : Node × Node :=
  (.scalar none .plain f.1.toList, f.2.node)

theorem length_entryTokens (items : List String) :
    (entryTokens items).length = 2 * items.length := by
  induction items with
  | nil => rfl
  | cons s items ih =>
    rw [entryTokens_cons, List.length_cons, List.length_cons, List.length_cons, ih]
    omega

end Content

def pairEnds : List Token :=
  [.key, .value, .blockEnd]

def EndsPair (ts : List Token) : Prop :=
  ∃ t ∈ [Token.key, .blockEnd], ts.head? = some t

section
variable {r : Reader} {ts : List Token} {block indentless : Bool} {fuel : Nat}

/-- Without an anchor or a tag a node is its content. -/
theorem readNode_bare {t : Token}
    (h : ∀ name handle suffix, t ≠ .alias name ∧ t ≠ .anchor name ∧ t ≠ .tag handle suffix) :
    readNode (fuel + 1) block indentless { r with tokens := t :: ts } =
      readContent fuel block indentless true none { r with tokens := t :: ts } := by
  have hhead : ({ r with tokens := t :: ts } : Reader).head = t := rfl
  have hproperties : ({ r with tokens := t :: ts } : Reader).properties =
      ({}, { r with tokens := t :: ts }) := by
    rw [Reader.properties, hhead]
    split
    · rename_i name
      exact absurd rfl (h name [] []).2.1
    · rename_i handle suffix
      exact absurd rfl (h [] handle suffix).2.2
    · rfl
  rw [readNode, hhead]
  split
  · rename_i name
    exact absurd rfl (h name [] []).1
  · rw [hproperties]
    simp only [Reader.resolveTag, Reader.declare, Reader.keep, bind, Except.bind, Option.isNone_none,
      Bool.and_self]
    cases readContent fuel block indentless true none { r with tokens := t :: ts } <;> rfl

theorem readNode_scalar (style : Style) (s : List Char) :
    readNode (fuel + 2) block indentless { r with tokens := .scalar style s :: ts } =
      .ok (.scalar none style s, { r with tokens := ts }) := by
  rw [readNode_bare (by simp), readContent]
  rfl

theorem readOrEmpty_scalar {ends : List Token} (style : Style) (s : List Char)
    (h : Token.scalar style s ∉ ends) :
    readOrEmpty (fuel + 3) block indentless ends { r with tokens := .scalar style s :: ts } =
      .ok (.scalar none style s, { r with tokens := ts }) := by
  rw [readOrEmpty, if_neg (by exact h), readNode_scalar]

theorem readLooseItems_cons {item : Node} {items : List Node} {r' r'' : Reader}
    (hitem : readOrEmpty fuel true false [.blockEntry, .key, .value, .blockEnd]
      { r with tokens := ts } = .ok (item, r'))
    (hmore : readLooseItems fuel r' = .ok (items, r'')) :
    readLooseItems (fuel + 1) { r with tokens := .blockEntry :: ts } = .ok (item :: items, r'') := by
  rw [readLooseItems]
  simp only [Reader.head, List.headD_cons, Reader.advance, List.drop_succ_cons, List.drop_zero, bind,
    Except.bind, hitem, hmore]

variable (r fuel) in
theorem readLooseItems_entries (items : List String) (hends : EndsPair ts)
    (hfuel : items.length + 4 ≤ fuel) :
    readLooseItems fuel { r with tokens := Content.entryTokens items ++ ts } =
      .ok (items.map textNode, { r with tokens := ts }) := by
  induction items generalizing fuel with
  | nil =>
    obtain ⟨fuel, rfl⟩ : ∃ n, fuel = n + 1 := ⟨fuel - 1, by simp at hfuel; omega⟩
    obtain ⟨t, ht, hhead⟩ := hends
    obtain ⟨more, rfl⟩ := List.head?_eq_some_iff.1 hhead
    rw [readLooseItems]
    simp only [List.mem_cons, List.not_mem_nil, or_false] at ht
    rcases ht with rfl | rfl <;> rfl
  | cons s items ih =>
    rw [List.length_cons] at hfuel
    obtain ⟨fuel, rfl⟩ : ∃ n, fuel = n + 4 := ⟨fuel - 4, by omega⟩
    rw [Content.entryTokens_cons]
    exact readLooseItems_cons (readOrEmpty_scalar (styleOf s.toList) s.toList (by simp))
      (ih _ (by omega))

theorem readOrEmpty_bare {t : Token} {ends : List Token} (hends : t ∉ ends)
    (h : ∀ name handle suffix, t ≠ .alias name ∧ t ≠ .anchor name ∧ t ≠ .tag handle suffix) :
    readOrEmpty (fuel + 2) block indentless ends { r with tokens := t :: ts } =
      readContent fuel block indentless true none { r with tokens := t :: ts } := by
  rw [readOrEmpty, if_neg (by exact hends), readNode_bare h]

theorem readContent_loose {items : List Node} {r' : Reader}
    (hitems : readLooseItems fuel { r with tokens := .blockEntry :: ts } = .ok (items, r')) :
    readContent (fuel + 1) block true true none { r with tokens := .blockEntry :: ts } =
      .ok (.sequence items, r') := by
  rw [readContent]
  simp only [Reader.head, List.headD_cons, Bool.true_and, decide_true, if_true, bind, Except.bind,
    hitems]

theorem readContent_empty :
    readContent (fuel + 2) block indentless true none
        { r with tokens := .flowSequenceStart :: .flowSequenceEnd :: ts } =
      .ok (.sequence [], { r with tokens := ts }) := by
  have hitems : readFlowItems (fuel + 1) true { r with tokens := .flowSequenceEnd :: ts } =
      .ok ([], { r with tokens := ts }) := by
    rw [readFlowItems]
    rfl
  rw [readContent]
  simp only [Reader.head, List.headD_cons, Reader.advance, List.drop_succ_cons, List.drop_zero, bind,
    Except.bind, hitems]

theorem readValue_value {ends : List Token} :
    readValue (fuel + 1) block indentless ends { r with tokens := .value :: ts } =
      readOrEmpty fuel block indentless ends { r with tokens := ts } := by
  rw [readValue]
  rfl

/-- The value of a field is read up to the next field. -/
theorem readValue_content (c : Content) (hends : EndsPair ts) (hfuel : c.tokens.length + 9 ≤ fuel) :
    readValue fuel true true pairEnds { r with tokens := .value :: (c.tokens ++ ts) } =
      .ok (c.node, { r with tokens := ts }) := by
  obtain ⟨fuel, rfl⟩ : ∃ n, fuel = n + 5 := ⟨fuel - 5, by omega⟩
  rw [readValue_value]
  cases c with
  | text s => exact readOrEmpty_scalar (styleOf s.toList) s.toList (by simp [pairEnds])
  | list items =>
    cases items with
    | nil =>
      exact (readOrEmpty_bare (by simp [pairEnds]) (by simp)).trans readContent_empty
    | cons s items =>
      simp only [Content.tokens, Content.length_entryTokens, List.length_cons] at hfuel
      have hitems := readLooseItems_entries r (fuel + 1) (s :: items) hends (by rw [List.length_cons]; omega)
      rw [Content.entryTokens_cons] at hitems
      show readOrEmpty _ _ _ _ { r with tokens := Content.entryTokens (s :: items) ++ ts } = _
      rw [Content.entryTokens_cons]
      exact (readOrEmpty_bare (by simp [pairEnds]) (by simp)).trans (readContent_loose hitems)

theorem readBlockPairs_cons {key value : Node} {entries : List (Node × Node)} {r₁ r₂ r₃ : Reader}
    (hkey : readOrEmpty fuel true true pairEnds { r with tokens := ts } = .ok (key, r₁))
    (hvalue : readValue fuel true true pairEnds r₁ = .ok (value, r₂))
    (hmore : readBlockPairs fuel r₂ = .ok (entries, r₃)) :
    readBlockPairs (fuel + 1) { r with tokens := .key :: ts } =
      .ok ((key, value) :: entries, r₃) := by
  rw [pairEnds] at hkey hvalue
  rw [readBlockPairs]
  simp only [Reader.head, List.headD_cons, Reader.advance, List.drop_succ_cons, List.drop_zero, bind,
    Except.bind, hkey, hvalue, hmore]

theorem endsPair_fieldsTokens (fields : List (String × Content)) :
    EndsPair (fieldsTokens fields ++ .blockEnd :: ts) := by
  cases fields with
  | nil => exact ⟨.blockEnd, by simp, rfl⟩
  | cons f fields => exact ⟨.key, by simp, rfl⟩

theorem readBlockPairs_fields (fields : List (String × Content))
    (hfuel : (fieldsTokens fields).length + 10 ≤ fuel) :
    readBlockPairs fuel { r with tokens := fieldsTokens fields ++ .blockEnd :: ts } =
      .ok (fields.map Content.entry, { r with tokens := ts }) := by
  induction fields generalizing fuel with
  | nil =>
    obtain ⟨fuel, rfl⟩ : ∃ n, fuel = n + 1 := ⟨fuel - 1, by omega⟩
    rw [readBlockPairs]
    rfl
  | cons f fields ih =>
    have htokens : fieldsTokens (f :: fields) ++ .blockEnd :: ts =
        .key :: .scalar .plain f.1.toList :: .value ::
          (f.2.tokens ++ (fieldsTokens fields ++ .blockEnd :: ts)) := by
      simp [fieldsTokens, Content.fieldTokens]
    have hlength : (fieldsTokens (f :: fields)).length =
        f.2.tokens.length + 3 + (fieldsTokens fields).length := by
      simp only [fieldsTokens, List.flatMap_cons, List.length_append, Content.fieldTokens,
        List.length_cons]
    obtain ⟨fuel, rfl⟩ : ∃ n, fuel = n + 4 := ⟨fuel - 4, by omega⟩
    rw [htokens]
    exact readBlockPairs_cons (readOrEmpty_scalar .plain f.1.toList (by simp [pairEnds]))
      (readValue_content f.2 (endsPair_fieldsTokens fields) (by omega)) (ih (by omega))

theorem readContent_mapping {entries : List (Node × Node)} {r' : Reader}
    (hentries : readBlockPairs fuel { r with tokens := ts } = .ok (entries, r')) :
    readContent (fuel + 1) true indentless true none
        { r with tokens := .blockMappingStart :: ts } = .ok (.mapping entries, r') := by
  rw [readContent]
  simp only [Reader.head, List.headD_cons, Reader.advance, List.drop_succ_cons, List.drop_zero, bind,
    Except.bind, hentries, reduceCtorEq, decide_false, decide_true, Bool.and_false, Bool.and_true,
    Bool.false_eq_true, if_false, if_true]

end

def fieldsDocument (fields : List (String × Content)) : Document :=
  ⟨some (.mapping (fields.map Content.entry)), []⟩

/-- Printed fields are read as one mapping. -/
theorem readDocument_fieldsText {fields : List (String × Content)} (hne : fields ≠ [])
    (hnames : ∀ f ∈ fields, IsKey f.1.toList) :
    readDocument (fieldsText fields) = .ok (fieldsDocument fields) := by
  have htokens := tokens_fieldsText hne hnames
  have hread : ∀ fuel, (fieldsTokens fields).length + 12 ≤ fuel →
      readNode fuel true false
          { tokens := .blockMappingStart :: (fieldsTokens fields ++ .blockEnd :: [.streamEnd])
            handles := defaultHandles } =
        .ok (.mapping (fields.map Content.entry),
          { tokens := [.streamEnd], handles := defaultHandles }) := by
    intro fuel hfuel
    obtain ⟨fuel, rfl⟩ : ∃ n, fuel = n + 2 := ⟨fuel - 2, by omega⟩
    let r : Reader := { tokens := [], handles := defaultHandles }
    exact (readNode_bare (r := r) (by simp)).trans
      (readContent_mapping (r := r) (readBlockPairs_fields (r := r) fields (by omega)))
  have hroot : readRoot { tokens := .blockMappingStart :: fieldsTokens fields ++
      [.blockEnd, .streamEnd] } =
        .ok (.mapping (fields.map Content.entry),
          { tokens := [.streamEnd], handles := defaultHandles }) := by
    rw [readRoot]
    refine hread _ ?_
    simp only [List.cons_append, List.length_cons, List.length_append]
    omega
  have hsome : ¬ (Token.blockMappingStart :: fieldsTokens fields ++ [.blockEnd, .streamEnd]) =
      [.streamEnd] := by simp
  rw [readDocument, htokens]
  simp only [bind, Except.bind, if_neg hsome, hroot]
  rfl

/-! ## Values -/

namespace Document

/-- A value that is read without following an alias. -/
def Gives {α : Type} (read : Decoding α) (a : α) : Prop :=
  ∀ left, read left = .ok (a, left)

section
variable {α β : Type} {d : Document}

theorem Gives.pure (a : α) : Gives (Pure.pure a) a :=
  fun _ => rfl

theorem Gives.bind {read : Decoding α} {a : α} {f : α → Decoding β} {b : β} (h : Gives read a)
    (h' : Gives (f a) b) : Gives (read >>= f) b := by
  intro left
  show (read left >>= fun p => f p.1 p.2) = _
  rw [h left]
  exact h' left

theorem Gives.mapM {read : α → Decoding β} {as : List α} {bs : List β}
    (h : List.Forall₂ (fun a b => Gives (read a) b) as bs) : Gives (as.mapM read) bs := by
  induction h with
  | nil => exact .pure []
  | cons hab _ ih =>
    rw [List.mapM_cons]
    exact hab.bind (ih.bind (.pure _))

theorem gives_asText (d : Document) (style : Style) (s : String) :
    Gives (d.asText (.scalar none style s.toList)) s := by
  intro left
  show Except.ok (String.ofList s.toList, left) = _
  rw [String.ofList_toList]

theorem gives_asList (d : Document) (items : List String) :
    Gives (d.asList d.asText (Content.list items).node) items := by
  have hall : List.Forall₂ (fun n s => Gives (d.asText n) s) (items.map textNode) items := by
    rw [List.forall₂_map_left_iff, List.forall₂_same]
    exact fun s _ => gives_asText d _ s
  exact Gives.mapM hall

theorem Gives.some {read : Decoding α} {a : α} (h : Gives read a) :
    Gives (Option.some <$> read) (Option.some a) := by
  rw [map_eq_pure_bind]
  exact h.bind (.pure _)

/-- A plain text is neither empty nor a spelling of null. -/
theorem not_missing_of_plain {s : List Char} (h : styleOf s = .plain) :
    (s.isEmpty || isNullText s) = false := by
  rcases styleOf_cases s with ⟨-, hs⟩ | ⟨hstyle, -⟩ | hstyle | ⟨hstyle, -⟩
  · have hclear := hs.clear
    simp only [isAmbiguous, Bool.or_eq_false_iff] at hclear
    rw [hclear.1.1.1.1.1, hclear.1.1.1.1.2]
    rfl
  all_goals
    rw [h] at hstyle
    cases hstyle

theorem gives_asOptional_scalar {style : Style} {text : List Char} {read : Node → Decoding α}
    {a : α} (hread : Gives (read (.scalar none style text)) a)
    (h : style = .plain → (text.isEmpty || isNullText text) = false) :
    Gives (d.asOptional read (.scalar none style text)) (some a) := by
  refine Gives.bind (a := .scalar none style text) (fun _ => rfl) ?_
  cases style with
  | plain =>
    show Gives (if text.isEmpty || isNullText text then return none
      else Option.some <$> read (.scalar none .plain text)) (some a)
    rw [h rfl]
    exact hread.some
  | singleQuoted => exact hread.some
  | doubleQuoted => exact hread.some
  | literal => exact hread.some
  | folded => exact hread.some

/-- A printed text is not taken for a missing one. -/
theorem gives_asOptional_text (d : Document) (s : String) :
    Gives (d.asOptional d.asText (textNode s)) (some s) :=
  gives_asOptional_scalar (gives_asText d _ s) not_missing_of_plain

theorem gives_asOptional_list (d : Document) (items : List String) :
    Gives (d.asOptional (d.asList d.asText) (Content.list items).node) (some items) :=
  Gives.bind (a := (Content.list items).node) (fun _ => rfl) (gives_asList d items).some

theorem gives_asNamed {ofName? : String → Option α} {s : String} {a : α} (h : ofName? s = some a) :
    Gives (d.asNamed ofName? (textNode s)) a := by
  refine Gives.bind (a := textNode s) (fun _ => rfl) ?_
  simp only [textNode, Option.bind_none, String.ofList_toList, h]
  exact .pure a

def fieldNodes (fields : List (String × Content)) : Fields :=
  fields.map fun f => (f.1, f.2.node)

theorem gives_asFields (d : Document) (fields : List (String × Content)) :
    Gives (d.asFields (.mapping (fields.map Content.entry))) (fieldNodes fields) := by
  have hall : List.Forall₂ (fun e f => Gives (do return (← d.asText e.1, e.2)) f)
      (fields.map Content.entry) (fieldNodes fields) := by
    rw [fieldNodes, List.forall₂_map_left_iff, List.forall₂_map_right_iff, List.forall₂_same]
    exact fun f _ => (gives_asText d .plain f.1).bind (.pure _)
  exact Gives.mapM hall

namespace Fields

theorem find_of_mem {fields : Fields} (h : (fields.map Prod.fst).Nodup) {name : String} {n : Node}
    (hmem : (name, n) ∈ fields) : find fields name = .ok (some n) := by
  obtain ⟨before, after, rfl⟩ := List.append_of_mem hmem
  rw [List.map_append, List.map_cons, List.nodup_middle, List.nodup_cons, List.mem_append,
    not_or] at h
  have hnone : ∀ others : Fields, name ∉ others.map Prod.fst →
      others.filter (fun f => f.1 == name) = [] := by
    intro others hothers
    rw [List.filter_eq_nil_iff]
    intro f hf heq
    exact hothers (List.mem_map.2 ⟨f, hf, by simpa using heq⟩)
  rw [find, List.filter_append, List.filter_cons, hnone before h.1.1, hnone after h.1.2]
  simp

theorem find_of_not_mem {fields : Fields} {name : String} (h : name ∉ fields.map Prod.fst) :
    find fields name = .ok none := by
  have hnone : fields.filter (fun f => f.1 == name) = [] := by
    rw [List.filter_eq_nil_iff]
    intro f hf heq
    exact h (List.mem_map.2 ⟨f, hf, by simpa using heq⟩)
  rw [find, hnone]

theorem gives_optional {fields : Fields} {name : String} {fallback a : α} {read : Node → Decoding α}
    {n : Option Node} (hfind : find fields name = .ok n) (hsome : ∀ m ∈ n, Gives (read m) a)
    (hnone : n = none → a = fallback) : Gives (optional fields name fallback read) a := by
  refine Gives.bind (a := n) (fun left => ?_) ?_
  · rw [hfind]
    rfl
  · cases n with
    | none =>
      rw [hnone rfl]
      exact .pure fallback
    | some m => exact hsome m rfl

end Fields

end
end Document

/-- What is read from the fields of a printed document. -/
theorem readFields_fieldsText {α : Type} {fields : List (String × Content)} (hne : fields ≠ [])
    (hnames : ∀ f ∈ fields, IsKey f.1.toList) {read : Document → Document.Fields → Decoding α}
    {a : α} (hread : Document.Gives (read (fieldsDocument fields) (Document.fieldNodes fields)) a) :
    readFields (String.ofList (fieldsText fields)) read = .ok a := by
  have hall := (Document.gives_asFields (fieldsDocument fields) fields).bind hread
  rw [readFields, String.toList_ofList, readDocument_fieldsText hne hnames]
  show (Document.asFields (fieldsDocument fields) (.mapping (fields.map Content.entry)) >>=
    read (fieldsDocument fields)).run' (fieldsDocument fields).aliasLimit = .ok a
  rw [StateT.run', hall]
  rfl

end AgentPrompt.Yaml
