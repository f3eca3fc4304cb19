import AgentPrompt.Proofs.Except
import AgentPrompt.Proofs.Json.Reread
import Mathlib.Data.String.Basic

namespace AgentPrompt.Json

def SortedKeys (members : List (String × Json)) : Prop :=
  members.Pairwise fun m m' => m.1 < m'.1

theorem sortedKeys_nil : SortedKeys [] :=
  List.Pairwise.nil

theorem mem_insertMember {key : String} {value : Json} {members : List (String × Json)}
    {m : String × Json} (h : m ∈ insertMember key value members) :
    m = (key, value) ∨ m ∈ members := by
  induction members with
  | nil => simpa [insertMember] using h
  | cons n members ih =>
    simp only [insertMember] at h
    split at h
    · simpa using h
    · split at h
      · rcases List.mem_cons.1 h with h | h
        · exact Or.inl h
        · exact Or.inr (List.mem_cons_of_mem _ h)
      · rcases List.mem_cons.1 h with rfl | h
        · exact Or.inr List.mem_cons_self
        · exact (ih h).imp_right (List.mem_cons_of_mem _)

theorem sortedKeys_insertMember {members : List (String × Json)} (h : SortedKeys members)
    (key : String) (value : Json) : SortedKeys (insertMember key value members) := by
  induction members with
  | nil => simp [insertMember, SortedKeys]
  | cons n members ih =>
    obtain ⟨hn, hs⟩ := List.pairwise_cons.1 h
    simp only [insertMember]
    split
    · rename_i hlt
      refine List.pairwise_cons.2 ⟨fun m hm => ?_, h⟩
      rcases List.mem_cons.1 hm with rfl | hm
      · exact hlt
      · exact lt_trans hlt (hn m hm)
    · rename_i hlt
      split
      · rename_i heq
        subst heq
        exact List.pairwise_cons.2 ⟨hn, hs⟩
      · rename_i hne
        have hgt : n.1 < key := lt_of_le_of_ne (not_lt.1 hlt) (Ne.symm hne)
        refine List.pairwise_cons.2 ⟨fun m hm => ?_, ih hs⟩
        rcases mem_insertMember hm with rfl | hm
        · exact hgt
        · exact hn m hm

theorem find?_reverse_of_mem {members : List (String × Json)} (h : SortedKeys members)
    {key : String} {value : Json} (hm : (key, value) ∈ members) :
    members.reverse.find? (fun m => m.1 == key) = some (key, value) := by
  induction members with
  | nil => simp at hm
  | cons n members ih =>
    obtain ⟨hn, hs⟩ := List.pairwise_cons.1 h
    rw [List.reverse_cons, List.find?_append]
    rcases List.mem_cons.1 hm with rfl | hm
    · have hnone : members.reverse.find? (fun m => m.1 == key) = none := by
        rw [List.find?_eq_none]
        intro m hmem
        have hlt : key < m.1 := hn m (List.mem_reverse.1 hmem)
        simpa using hlt.ne'
      simp [hnone]
    · rw [ih hs hm, Option.some_or]

/-- In a sorted object a key has the value of the one member with that key. -/
theorem field_of_mem {members : List (String × Json)} (h : SortedKeys members) {key : String}
    {value : Json} (hm : (key, value) ∈ members) : field key (object members) = value := by
  rw [field, find?_reverse_of_mem h hm]
  rfl

theorem sortedKeys_rereadMembers {before : List (String × Json)} (h : SortedKeys before)
    (members : List (String × Json)) : SortedKeys (rereadMembers before members) := by
  induction members generalizing before with
  | nil => exact h
  | cons n members ih => exact ih (sortedKeys_insertMember h _ _)

/-! ## Rearranged members -/

theorem insertMember_perm {key : String} (value : Json) {members : List (String × Json)}
    (h : key ∉ members.map Prod.fst) :
    (insertMember key value members).Perm ((key, value) :: members) := by
  induction members with
  | nil => exact List.Perm.refl _
  | cons m members ih =>
    rw [List.map_cons, List.mem_cons, not_or] at h
    simp only [insertMember, h.1, if_false]
    split
    · exact List.Perm.refl _
    · exact (List.Perm.cons m (ih h.2)).trans (List.Perm.swap _ _ _)

/-- Members with different keys are all kept when they are read. -/
theorem rereadMembers_perm {before members : List (String × Json)}
    (h : ((before ++ members).map Prod.fst).Nodup) :
    (rereadMembers before members).Perm (before ++ members.map fun m => (m.1, m.2.reread)) := by
  induction members generalizing before with
  | nil => simp [rereadMembers]
  | cons m members ih =>
    have hm : m.1 ∉ before.map Prod.fst := by
      rw [List.map_append, List.nodup_append] at h
      exact fun hb => h.2.2 m.1 hb m.1 (by simp) rfl
    have hp := insertMember_perm m.2.reread hm
    have hkeys : ((insertMember m.1 m.2.reread before ++ members).map Prod.fst).Perm
        ((before ++ m :: members).map Prod.fst) := by
      have hfront := (hp.append_right members).map Prod.fst
      refine hfront.trans ?_
      simp only [List.cons_append, List.map_cons, List.map_append]
      exact List.perm_middle.symm
    refine (ih (hkeys.nodup_iff.2 h)).trans ?_
    refine (hp.append_right _).trans ?_
    simp only [List.cons_append, List.map_cons]
    exact List.perm_middle.symm

theorem SortedKeys.nodup {members : List (String × Json)} (h : SortedKeys members) :
    (members.map Prod.fst).Nodup :=
  List.pairwise_map.2 (h.imp fun hlt => hlt.ne)

/-- Sorted members are determined by which there are. -/
theorem SortedKeys.eq_of_perm {members members' : List (String × Json)} (h : SortedKeys members)
    (h' : SortedKeys members') (hp : members.Perm members') : members = members' :=
  hp.eq_of_pairwise (fun _ _ _ _ hlt hgt => absurd hgt (lt_asymm hlt)) h h'

/-- A key that a printed object uses once keeps its value when the object is read. -/
theorem field_reread {members : List (String × Json)} (h : (members.map Prod.fst).Nodup)
    {key : String} {v : Json} (hm : (key, v) ∈ members) :
    field key (reread (object members)) = v.reread := by
  have hp : (rereadMembers [] members).Perm (members.map fun m => (m.1, m.2.reread)) :=
    rereadMembers_perm h
  have hread : (key, v.reread) ∈ rereadMembers [] members :=
    hp.mem_iff.2 (List.mem_map.2 ⟨(key, v), hm, rfl⟩)
  exact field_of_mem (sortedKeys_rereadMembers sortedKeys_nil members) hread

theorem rereadItems_strings (items : List String) :
    rereadItems (items.map string) = items.map string := by
  induction items with
  | nil => rfl
  | cons s items ih => simp [rereadItems, reread, ih]

theorem reread_ofStrings (items : List String) : reread (ofStrings items) = ofStrings items := by
  rw [ofStrings, reread, rereadItems_strings]

/-! ## Validity -/

theorem validMembers_iff {members : List (String × Json)} :
    ValidMembers members ↔ ∀ m ∈ members, m.2.Valid := by
  induction members with
  | nil => simp [ValidMembers]
  | cons m members ih => simp [ValidMembers, ih]

theorem validItems_iff {items : List Json} : ValidItems items ↔ ∀ v ∈ items, v.Valid := by
  induction items with
  | nil => simp [ValidItems]
  | cons v items ih => simp [ValidItems, ih]

end AgentPrompt.Json
