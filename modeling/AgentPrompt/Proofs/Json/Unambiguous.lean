import AgentPrompt.Proofs.Json.Members

/-! A reader that is given a printed value stops where that value ends, whatever delimits it. -/
namespace AgentPrompt.Json

theorem reread_eq_of_chars_append_eq {v w : Json} (hv : v.Valid) (hw : w.Valid) {r r' : List Char}
    (hr : Delimited r) (hr' : Delimited r') (h : chars v ++ r = chars w ++ r') :
    v.reread = w.reread ∧ r = r' := by
  have hread := readValue_chars v hv (2 * (chars v).length + 2 * (chars w).length)
    (v.depth + w.depth) (by omega) (by omega) hr
  have hread' := readValue_chars w hw (2 * (chars v).length + 2 * (chars w).length)
    (v.depth + w.depth) (by omega) (by omega) hr'
  rw [h, hread'] at hread
  obtain ⟨hsame, hrest⟩ := Prod.mk.inj (Except.ok.inj hread)
  exact ⟨hsame.symm, hrest.symm⟩

/-- Two values that begin the same text end at the same place. -/
theorem chars_append_inj {v w : Json} (hv : v.Valid) (hw : w.Valid) {r r' : List Char}
    (hr : Delimited r) (hr' : Delimited r') (h : chars v ++ r = chars w ++ r') :
    chars v = chars w ∧ r = r' := by
  obtain ⟨-, rfl⟩ := reread_eq_of_chars_append_eq hv hw hr hr' h
  exact ⟨List.append_cancel_right h, rfl⟩

theorem reread_eq_of_chars_eq {v w : Json} (hv : v.Valid) (hw : w.Valid) (h : chars v = chars w) :
    v.reread = w.reread := by
  have hend : Delimited [] := trivial
  exact (reread_eq_of_chars_append_eq hv hw hend hend (by rw [h])).1

theorem string_eq_of_chars_eq {s s' : String} (h : chars (string s) = chars (string s')) :
    s = s' := by
  have hv : (string s).Valid := trivial
  have hv' : (string s').Valid := trivial
  have hread := reread_eq_of_chars_eq hv hv' h
  simpa [reread] using hread

theorem quoted_append_inj {k k' : String} {r r' : List Char}
    (h : quoted k.toList ++ r = quoted k'.toList ++ r') : k = k' ∧ r = r' := by
  have hinner : k.toList.flatMap escape ++ '"' :: r = k'.toList.flatMap escape ++ '"' :: r' := by
    simpa [quoted] using h
  have hread := readString_text k r
  rw [hinner, readString_text k' r'] at hread
  obtain ⟨hsame, hrest⟩ := Prod.mk.inj (Except.ok.inj hread)
  exact ⟨hsame.symm, hrest.symm⟩

/-- What follows a member in the text of an object. -/
def laterText : List (String × Json) → List Char
  | [] => []
  | m :: members => ',' :: membersText (m :: members)

theorem membersText_cons (m : String × Json) (members : List (String × Json)) :
    membersText (m :: members) =
      quoted m.1.toList ++ ':' :: (chars m.2 ++ laterText members) := by
  cases members with
  | nil => simp [membersText, laterText]
  | cons n members => simp [membersText, laterText]

theorem delimited_laterText (members : List (String × Json)) : Delimited (laterText members) := by
  cases members with
  | nil => exact trivial
  | cons m members => exact Or.inl rfl

theorem membersText_eq_of_laterText_eq {members members' : List (String × Json)}
    (h : laterText members = laterText members') : membersText members = membersText members' := by
  cases members with
  | nil =>
    cases members' with
    | nil => rfl
    | cons m' members' => cases h
  | cons m members =>
    cases members' with
    | nil => cases h
    | cons m' members' => exact (List.cons.inj h).2

def SameMember (m m' : String × Json) : Prop :=
  m.1 = m'.1 ∧ chars m.2 = chars m'.2

/-- The text of an object tells its keys and the texts of their values. -/
theorem sameMembers_of_membersText_eq {members members' : List (String × Json)}
    (hv : ValidMembers members) (hv' : ValidMembers members')
    (h : membersText members = membersText members') :
    List.Forall₂ SameMember members members' := by
  induction members generalizing members' with
  | nil =>
    cases members' with
    | nil => exact .nil
    | cons m' members' =>
      rw [membersText_cons] at h
      cases h
  | cons m members ih =>
    cases members' with
    | nil =>
      rw [membersText_cons] at h
      cases h
    | cons m' members' =>
      rw [membersText_cons, membersText_cons] at h
      obtain ⟨hkey, hrest⟩ := quoted_append_inj h
      obtain ⟨hvalue, hlater⟩ := chars_append_inj hv.1 hv'.1 (delimited_laterText members)
        (delimited_laterText members') (List.cons.inj hrest).2
      exact .cons ⟨hkey, hvalue⟩ (ih hv.2 hv'.2 (membersText_eq_of_laterText_eq hlater))

theorem sameMembers_of_chars_eq {members members' : List (String × Json)}
    (hv : (object members).Valid) (hv' : (object members').Valid)
    (h : chars (object members) = chars (object members')) :
    List.Forall₂ SameMember members members' := by
  simp only [chars, List.cons_append, List.cons.injEq, true_and] at h
  exact sameMembers_of_membersText_eq hv hv' (List.append_cancel_right h)

end AgentPrompt.Json
