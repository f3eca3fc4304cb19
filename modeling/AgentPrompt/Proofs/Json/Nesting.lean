import AgentPrompt.Proofs.Json.Reread

namespace AgentPrompt.Json

theorem depthItems_le_iff {items : List Json} {n : Nat} :
    depthItems items ≤ n ↔ ∀ v ∈ items, v.depth ≤ n := by
  induction items with
  | nil => simp [depthItems]
  | cons v items ih => rw [depthItems, max_le_iff, ih, List.forall_mem_cons]

theorem depthMembers_le_iff {members : List (String × Json)} {n : Nat} :
    depthMembers members ≤ n ↔ ∀ m ∈ members, m.2.depth ≤ n := by
  induction members with
  | nil => simp [depthMembers]
  | cons m members ih => rw [depthMembers, max_le_iff, ih, List.forall_mem_cons]

theorem depth_array_le_iff {items : List Json} {n : Nat} :
    (array items).depth ≤ n + 1 ↔ ∀ v ∈ items, v.depth ≤ n := by
  rw [Json.depth, Nat.add_le_add_iff_right, depthItems_le_iff]

theorem depth_object_le_iff {members : List (String × Json)} {n : Nat} :
    (object members).depth ≤ n + 1 ↔ ∀ m ∈ members, m.2.depth ≤ n := by
  rw [Json.depth, Nat.add_le_add_iff_right, depthMembers_le_iff]

/-! ## Steps that fail -/

theorem readValue_array_zero (fuel : Nat) (s : List Char) :
    readValue (fuel + 1) 0 ('[' :: s) = .error .tooDeep := by
  simp [readValue, skipSpace, isSpace]

theorem readValue_object_zero (fuel : Nat) (s : List Char) :
    readValue (fuel + 1) 0 ('\x7b' :: s) = .error .tooDeep := by
  simp [readValue, skipSpace, isSpace]

section
variable {fuel depth : Nat} {s rest : List Char} {v : Json} {e : Fault}

theorem readItems_error (h : readValue fuel depth s = .error e) :
    readItems (fuel + 1) depth s = .error e := by
  simp [readItems, h, bind, Except.bind]

theorem readItems_more_error (h : readValue fuel depth s = .ok (v, ',' :: rest))
    (hmore : readItems fuel depth rest = .error e) : readItems (fuel + 1) depth s = .error e := by
  simp [readItems, h, hmore, bind, Except.bind, skipSpace_cons (show isSpace ',' = false from rfl)]

theorem readMembers_error {before : List (String × Json)} {key : String}
    (h : readValue fuel depth s = .error e) :
    readMembers (fuel + 1) depth before (quoted key.toList ++ ':' :: s) = .error e := by
  have hkey := readString_text key (':' :: s)
  simp [readMembers, quoted, skipSpace_cons (show isSpace '"' = false from rfl), hkey, h, bind,
    Except.bind, skipSpace_cons (show isSpace ':' = false from rfl)]

end

/-! ## Whole values -/

mutual
/-- The text of a value that nests deeper than the limit is refused, whatever follows. -/
theorem readValue_tooDeep (v : Json) (hv : v.Valid) (fuel limit : Nat)
    (hf : 2 * (chars v).length ≤ fuel) (hd : limit < v.depth) (rest : List Char) :
    readValue fuel limit (chars v ++ rest) = .error .tooDeep := by
  have hpos : 0 < (chars v).length := by
    obtain ⟨c, s, hc, -⟩ := exists_chars_cons v
    simp [hc]
  obtain ⟨fuel, rfl⟩ : ∃ k, fuel = k + 1 := ⟨fuel - 1, by omega⟩
  match v, limit with
  | null, _ => simp [Json.depth] at hd
  | bool _, _ => simp [Json.depth] at hd
  | number _, _ => simp [Json.depth] at hd
  | string _, _ => simp [Json.depth] at hd
  | array items, 0 => exact readValue_array_zero fuel _
  | object members, 0 => exact readValue_object_zero fuel _
  | array [], limit + 1 => simp [Json.depth, depthItems] at hd
  | object [], limit + 1 => simp [Json.depth, depthMembers] at hd
  | array (w :: items), limit + 1 =>
    rw [Json.depth] at hd
    rw [chars] at hf
    have hfuel : 2 * (itemsText (w :: items)).length + 1 ≤ fuel := by
      simp only [List.length_append, List.length_cons, List.length_nil] at hf
      omega
    have hitems := readItems_tooDeep (w :: items) hv fuel limit hfuel (by omega) rest
    obtain ⟨c, s, hc, hstart⟩ := exists_itemsText_cons w items
    rw [hc, List.cons_append] at hitems
    simp only [chars, hc, List.cons_append, List.append_assoc, List.nil_append]
    rw [readValue_array hstart, hitems]
    rfl
  | object (m :: members), limit + 1 =>
    rw [Json.depth] at hd
    rw [chars] at hf
    have hfuel : 2 * (membersText (m :: members)).length + 1 ≤ fuel := by
      simp only [List.length_append, List.length_cons, List.length_nil] at hf
      omega
    have hmembers := readMembers_tooDeep (m :: members) hv fuel limit hfuel (by omega) [] rest
    obtain ⟨s, hs⟩ := exists_membersText_cons m members
    rw [hs, List.cons_append] at hmembers
    simp only [chars, hs, List.cons_append, List.append_assoc, List.nil_append]
    rw [readValue_object, hmembers]
    rfl

theorem readItems_tooDeep (items : List Json) (hv : ValidItems items) (fuel limit : Nat)
    (hf : 2 * (itemsText items).length + 1 ≤ fuel) (hd : limit < depthItems items)
    (rest : List Char) :
    readItems fuel limit (itemsText items ++ ']' :: rest) = .error .tooDeep := by
  obtain ⟨fuel, rfl⟩ : ∃ k, fuel = k + 1 := ⟨fuel - 1, by omega⟩
  match items with
  | [] => simp [depthItems] at hd
  | [v] =>
    simp only [depthItems, Nat.max_zero] at hd
    rw [itemsText] at hf ⊢
    exact readItems_error (readValue_tooDeep v hv.1 fuel limit (by omega) hd _)
  | v :: w :: items =>
    rw [itemsText] at hf ⊢
    simp only [List.length_append, List.length_cons] at hf
    rw [List.append_assoc, List.cons_append]
    by_cases hfirst : limit < v.depth
    · exact readItems_error (readValue_tooDeep v hv.1 fuel limit (by omega) hfirst _)
    · have hlater : limit < depthItems (w :: items) := by
        rw [depthItems, lt_max_iff] at hd
        exact hd.resolve_left hfirst
      have hr : Delimited (',' :: (itemsText (w :: items) ++ ']' :: rest)) := Or.inl rfl
      have hread := readValue_chars v hv.1 fuel limit (by omega) (by omega) hr
      exact readItems_more_error hread
        (readItems_tooDeep (w :: items) hv.2 fuel limit (by omega) hlater rest)

theorem readMembers_tooDeep (members : List (String × Json)) (hv : ValidMembers members)
    (fuel limit : Nat) (hf : 2 * (membersText members).length + 1 ≤ fuel)
    (hd : limit < depthMembers members) (before : List (String × Json)) (rest : List Char) :
    readMembers fuel limit before (membersText members ++ '\x7d' :: rest) = .error .tooDeep := by
  obtain ⟨fuel, rfl⟩ : ∃ k, fuel = k + 1 := ⟨fuel - 1, by omega⟩
  match members with
  | [] => simp [depthMembers] at hd
  | [(key, v)] =>
    simp only [depthMembers, Nat.max_zero] at hd
    rw [membersText] at hf ⊢
    simp only [List.length_append, List.length_cons] at hf
    rw [List.append_assoc, List.cons_append]
    exact readMembers_error (readValue_tooDeep v hv.1 fuel limit (by omega) hd _)
  | (key, v) :: m :: members =>
    rw [membersText] at hf ⊢
    simp only [List.length_append, List.length_cons] at hf
    simp only [List.append_assoc, List.cons_append]
    by_cases hfirst : limit < v.depth
    · exact readMembers_error (readValue_tooDeep v hv.1 fuel limit (by omega) hfirst _)
    · have hlater : limit < depthMembers (m :: members) := by
        rw [depthMembers, lt_max_iff] at hd
        exact hd.resolve_left hfirst
      have hr : Delimited (',' :: (membersText (m :: members) ++ '\x7d' :: rest)) := Or.inl rfl
      have hread := readValue_chars v hv.1 fuel limit (by omega) (by omega) hr
      rw [readMembers_more hread]
      exact readMembers_tooDeep (m :: members) hv.2 fuel limit (by omega) hlater _ rest
end

theorem readText_tooDeep {v : Json} (hv : v.Valid) (hd : nestingLimit < v.depth) :
    readText (chars v) = .error .tooDeep := by
  have hread := readValue_tooDeep v hv _ _ (Nat.le_add_right (2 * (chars v).length) 2) hd []
  rw [List.append_nil] at hread
  simp [readText, hread, bind, Except.bind]

end AgentPrompt.Json
