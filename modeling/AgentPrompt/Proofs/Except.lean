namespace AgentPrompt.Except

variable {ε α β : Type}

theorem exists_eq_ok_of_isOk {x : Except ε α} (h : x.isOk = true) : ∃ a, x = .ok a := by
  cases x with
  | ok a => exact ⟨a, rfl⟩
  | error e => simp [Except.isOk, Except.toBool] at h

theorem toOption_eq_some_iff {x : Except ε α} {a : α} : x.toOption = some a ↔ x = .ok a := by
  cases x <;> simp [Except.toOption]

theorem map_eq_ok_iff {x : Except ε α} {f : α → β} {b : β} :
    x.map f = .ok b ↔ ∃ a, x = .ok a ∧ f a = b := by
  cases x <;> simp [Except.map]

theorem map_eq_error_iff {x : Except ε α} {f : α → β} {e : ε} :
    x.map f = .error e ↔ x = .error e := by
  cases x <;> simp [Except.map]

theorem bind_eq_ok_iff {x : Except ε α} {f : α → Except ε β} {b : β} :
    x >>= f = .ok b ↔ ∃ a, x = .ok a ∧ f a = .ok b := by
  cases x <;> simp [bind, Except.bind]

theorem mapM_cons_eq_ok_iff {f : α → Except ε β} {a : α} {as : List α} {bs : List β} :
    (a :: as).mapM f = .ok bs ↔ ∃ b more, f a = .ok b ∧ as.mapM f = .ok more ∧ bs = b :: more := by
  simp only [List.mapM_cons, bind_eq_ok_iff, pure, Except.pure, Except.ok.injEq]
  constructor
  · rintro ⟨b, hb, more, hm, rfl⟩
    exact ⟨b, more, hb, hm, rfl⟩
  · rintro ⟨b, more, hb, hm, rfl⟩
    exact ⟨b, hb, more, hm, rfl⟩

theorem bind_eq_error_iff {x : Except ε α} {f : α → Except ε β} {e : ε} :
    x >>= f = .error e ↔ x = .error e ∨ ∃ a, x = .ok a ∧ f a = .error e := by
  cases x <;> simp [bind, Except.bind]

/-- A list is worked through up to the first element that fails. -/
theorem exists_first_error {f : α → Except ε β} {as : List α} {e : ε}
    (h : as.mapM f = .error e) :
    ∃ front a back, as = front ++ a :: back ∧ (∀ x ∈ front, ∃ y, f x = .ok y) ∧
      f a = .error e := by
  induction as with
  | nil => cases h
  | cons a as ih =>
    rw [List.mapM_cons, bind_eq_error_iff] at h
    rcases h with ha | ⟨b, hb, h⟩
    · exact ⟨[], a, as, rfl, by simp, ha⟩
    · rcases bind_eq_error_iff.1 h with hmore | ⟨bs, -, hnever⟩
      · obtain ⟨front, c, back, rfl, hfront, hc⟩ := ih hmore
        exact ⟨a :: front, c, back, rfl, List.forall_mem_cons.2 ⟨⟨b, hb⟩, hfront⟩, hc⟩
      · cases hnever

end AgentPrompt.Except
