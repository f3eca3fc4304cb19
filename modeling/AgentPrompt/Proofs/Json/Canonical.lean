import AgentPrompt.Proofs.Json.Members

namespace AgentPrompt.Json

/-- Values with sorted members and with numbers such as the reader returns. -/
inductive Canonical : Json → Prop
  | null : Canonical .null
  | bool (b : Bool) : Canonical (.bool b)
  | number {n : Number} (h : n.Valid) : Canonical (.number n)
  | string (s : String) : Canonical (.string s)
  | array {items : List Json} (h : ∀ v ∈ items, Canonical v) : Canonical (.array items)
  | object {members : List (String × Json)} (sorted : SortedKeys members)
      (h : ∀ m ∈ members, Canonical m.2) : Canonical (.object members)

/-- Members that the reader has gathered. -/
structure CanonicalMembers (members : List (String × Json)) : Prop where
  sorted : SortedKeys members
  values : ∀ m ∈ members, Canonical m.2

theorem canonicalMembers_insertMember (key : String) {value : Json}
    {members : List (String × Json)} (hv : Canonical value) (hm : CanonicalMembers members) :
    CanonicalMembers (insertMember key value members) := by
  refine ⟨sortedKeys_insertMember hm.sorted key value, fun m hmem => ?_⟩
  rcases mem_insertMember hmem with rfl | hmem
  · exact hv
  · exact hm.values m hmem

/-! ## What is read is canonical -/

theorem canonical_of_readNumber {negative : Bool} {s rest : List Char} {v : Json}
    (h : readNumber negative s = .ok (v, rest)) : Canonical v := by
  obtain ⟨t, n, hn, rfl⟩ := exists_value_of_readNumber h
  exact .number (NumberToken.valid_of_value hn)

theorem canonical_of_readWord {word s rest : List Char} {value v : Json}
    (h : readWord word value s = .ok (v, rest)) (hv : Canonical value) : Canonical v := by
  rwa [eq_of_readWord h]

section
variable {fuel : ℕ}

theorem canonical_of_readValue_succ
    (hitems : ∀ depth s items rest, readItems fuel depth s = .ok (items, rest) →
      ∀ v ∈ items, Canonical v)
    (hmembers : ∀ depth before s members rest,
      readMembers fuel depth before s = .ok (members, rest) →
        CanonicalMembers before → CanonicalMembers members)
    {depth : ℕ} {s rest : List Char} {v : Json}
    (h : readValue (fuel + 1) depth s = .ok (v, rest)) : Canonical v := by
  have hnone : CanonicalMembers [] := ⟨sortedKeys_nil, by simp⟩
  rw [readValue] at h
  split at h
  · simp at h
  · exact canonical_of_readWord h .null
  · exact canonical_of_readWord h (.bool true)
  · exact canonical_of_readWord h (.bool false)
  · simp only [Except.bind_eq_ok_iff, Prod.exists, Except.ok.injEq, Prod.mk.injEq] at h
    obtain ⟨text, after, -, rfl, -⟩ := h
    exact .string text
  · exact canonical_of_readNumber h
  · split at h
    · simp at h
    · split at h
      · obtain ⟨rfl, -⟩ := Prod.mk.inj (Except.ok.inj h)
        exact .array (by simp)
      · simp only [Except.bind_eq_ok_iff, Prod.exists, Except.ok.injEq, Prod.mk.injEq] at h
        obtain ⟨items, after, hread, rfl, -⟩ := h
        exact .array (hitems _ _ _ _ hread)
  · split at h
    · simp at h
    · split at h
      · obtain ⟨rfl, -⟩ := Prod.mk.inj (Except.ok.inj h)
        exact .object hnone.sorted hnone.values
      · simp only [Except.bind_eq_ok_iff, Prod.exists, Except.ok.injEq, Prod.mk.injEq] at h
        obtain ⟨members, after, hread, rfl, -⟩ := h
        have hm := hmembers _ _ _ _ _ hread hnone
        exact .object hm.sorted hm.values
  · split at h
    · exact canonical_of_readNumber h
    · simp at h

variable (hvalue : ∀ depth s v rest, readValue fuel depth s = .ok (v, rest) → Canonical v)
include hvalue

theorem canonical_of_readItems_succ
    (hitems : ∀ depth s items rest, readItems fuel depth s = .ok (items, rest) →
      ∀ v ∈ items, Canonical v)
    {depth : ℕ} {s rest : List Char} {items : List Json}
    (h : readItems (fuel + 1) depth s = .ok (items, rest)) : ∀ v ∈ items, Canonical v := by
  simp only [readItems, Except.bind_eq_ok_iff, Prod.exists] at h
  obtain ⟨item, after, hitem, h⟩ := h
  have hfirst := hvalue _ _ _ _ hitem
  split at h
  · obtain ⟨rfl, -⟩ := Prod.mk.inj (Except.ok.inj h)
    simpa using hfirst
  · simp only [Except.bind_eq_ok_iff, Prod.exists, Except.ok.injEq, Prod.mk.injEq] at h
    obtain ⟨more, after, hmore, rfl, -⟩ := h
    exact List.forall_mem_cons.2 ⟨hfirst, hitems _ _ _ _ hmore⟩
  · simp at h
  · simp at h

theorem canonical_of_readMembers_succ
    (hmembers : ∀ depth before s members rest,
      readMembers fuel depth before s = .ok (members, rest) →
        CanonicalMembers before → CanonicalMembers members)
    {depth : ℕ} {before members : List (String × Json)} {s rest : List Char}
    (h : readMembers (fuel + 1) depth before s = .ok (members, rest))
    (hb : CanonicalMembers before) : CanonicalMembers members := by
  rw [readMembers] at h
  split at h
  · simp only [Except.bind_eq_ok_iff, Prod.exists] at h
    obtain ⟨key, after, -, h⟩ := h
    split at h
    · simp only [Except.bind_eq_ok_iff, Prod.exists] at h
      obtain ⟨value, after, hread, h⟩ := h
      have hm := canonicalMembers_insertMember key (hvalue _ _ _ _ hread) hb
      split at h
      · obtain ⟨rfl, -⟩ := Prod.mk.inj (Except.ok.inj h)
        exact hm
      · exact hmembers _ _ _ _ _ h hm
      · simp at h
      · simp at h
    · simp at h
    · simp at h
  · simp at h
  · simp at h

end

theorem canonical_of_read (fuel : ℕ) :
    (∀ depth s v rest, readValue fuel depth s = .ok (v, rest) → Canonical v) ∧
    (∀ depth s items rest, readItems fuel depth s = .ok (items, rest) → ∀ v ∈ items, Canonical v) ∧
    (∀ depth before s members rest, readMembers fuel depth before s = .ok (members, rest) →
      CanonicalMembers before → CanonicalMembers members) := by
  induction fuel with
  | zero => simp [readValue, readItems, readMembers]
  | succ fuel ih =>
    obtain ⟨ihv, ihi, ihm⟩ := ih
    exact ⟨fun _ _ _ _ => canonical_of_readValue_succ ihi ihm,
      fun _ _ _ _ => canonical_of_readItems_succ ihv ihi,
      fun _ _ _ _ _ => canonical_of_readMembers_succ ihv ihm⟩

theorem canonical_of_readText {s : List Char} {v : Json} (h : readText s = .ok v) :
    Canonical v := by
  simp only [readText, Except.bind_eq_ok_iff, Prod.exists] at h
  obtain ⟨w, rest, hread, h⟩ := h
  split at h
  · obtain rfl := Except.ok.inj h
    exact (canonical_of_read _).1 _ _ _ _ hread
  · simp at h

/-! ## Canonical values are printed and read back -/

theorem Canonical.valid {v : Json} (h : Canonical v) : v.Valid := by
  induction h with
  | null => exact trivial
  | bool b => exact trivial
  | number h => exact h
  | string s => exact trivial
  | array h ih => exact validItems_iff.2 ih
  | object sorted h ih => exact validMembers_iff.2 ih

mutual
def numbers : Json → List Number
  | number n => [n]
  | array items => numbersItems items
  | object members => numbersMembers members
  | _ => []

def numbersItems : List Json → List Number
  | [] => []
  | v :: rest => numbers v ++ numbersItems rest

def numbersMembers : List (String × Json) → List Number
  | [] => []
  | (_, v) :: rest => numbers v ++ numbersMembers rest
end

/-- All numbers of the value are whole numbers of 64 bits. -/
def Whole (v : Json) : Prop :=
  ∀ n ∈ v.numbers, ∃ i, n = .int i

theorem whole_array {items : List Json} (h : Whole (.array items)) : ∀ v ∈ items, v.Whole := by
  induction items with
  | nil => simp
  | cons w items ih =>
    have hnumbers : numbers (.array (w :: items)) = w.numbers ++ numbers (.array items) := by
      simp only [numbers, numbersItems]
    simp only [Whole, hnumbers, List.mem_append] at h
    exact List.forall_mem_cons.2 ⟨fun n hn => h n (Or.inl hn), ih fun n hn => h n (Or.inr hn)⟩

theorem whole_object {members : List (String × Json)} (h : Whole (.object members)) :
    ∀ m ∈ members, m.2.Whole := by
  induction members with
  | nil => simp
  | cons m members ih =>
    have hnumbers : numbers (.object (m :: members)) = m.2.numbers ++ numbers (.object members) := by
      simp only [numbers, numbersMembers]
    simp only [Whole, hnumbers, List.mem_append] at h
    exact List.forall_mem_cons.2 ⟨fun n hn => h n (Or.inl hn), ih fun n hn => h n (Or.inr hn)⟩

theorem rereadItems_eq_map (items : List Json) : rereadItems items = items.map reread := by
  induction items with
  | nil => rfl
  | cons v items ih => rw [rereadItems, ih, List.map_cons]

theorem Number.reread_int {i : Int} (h : (Number.int i).Valid) :
    (Number.int i).reread = .int i := by
  have hv := value_numeral h
  have hint : (Number.int i).numeral.value (Number.int i).isNegative = .ok (.int i) :=
    intNumeral_value h
  rw [hint] at hv
  exact (Except.ok.inj hv).symm

/-- A value that was read, with whole numbers only, is read again as it is. -/
theorem Canonical.reread_eq {v : Json} (h : Canonical v) (hw : v.Whole) : v.reread = v := by
  induction h with
  | null => rfl
  | bool b => rfl
  | @number n h =>
    obtain ⟨i, rfl⟩ := hw n (by simp [numbers])
    rw [reread, Number.reread_int h]
  | string s => rfl
  | @array items h ih =>
    have hsame : ∀ v ∈ items, v.reread = v := fun v hv => ih v hv (whole_array hw v hv)
    rw [reread, rereadItems_eq_map, List.map_congr_left hsame, List.map_id']
  | @object members sorted h ih =>
    have hsame : ∀ m ∈ members, (m.1, m.2.reread) = m := by
      intro m hm
      rw [ih m hm (whole_object hw m hm)]
    have hp : (rereadMembers [] members).Perm (members.map fun m => (m.1, m.2.reread)) :=
      rereadMembers_perm sorted.nodup
    rw [List.map_congr_left hsame, List.map_id'] at hp
    rw [reread, (sortedKeys_rereadMembers sortedKeys_nil members).eq_of_perm sorted hp]

end AgentPrompt.Json
