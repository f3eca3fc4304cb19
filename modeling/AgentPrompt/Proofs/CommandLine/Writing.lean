import AgentPrompt.CommandLine.FileTree
import AgentPrompt.Proofs.Except

namespace AgentPrompt.CommandLine.FileTree

variable {t t' : FileTree} {p q place : Place} {e : Entry} {directory : WorkingDirectory}
  {path text : String}

theorem lookup_filter_ne (entries : List (Place × Entry)) (h : q ≠ p) :
    (entries.filter fun other => other.1 != p).lookup q = entries.lookup q := by
  induction entries with
  | nil => rfl
  | cons other entries ih =>
    obtain ⟨k, e⟩ := other
    by_cases hk : k = p
    · subst hk
      have hq : (q == k) = false := beq_eq_false_iff_ne.mpr h
      simp [List.lookup_cons, hq, ih]
    · simp [hk, List.lookup_cons, ih]

theorem lookup_put_of_ne (h : q ≠ p) : (t.put p e).entries.lookup q = t.entries.lookup q := by
  have hq : (q == p) = false := beq_eq_false_iff_ne.mpr h
  simp [put, List.lookup_cons, hq, lookup_filter_ne t.entries h]

theorem entry?_put_self : FileTree.entry? (t.put p e) p = some e := by
  simp [FileTree.entry?, put]

/-- Files stand in the tree themselves. -/
theorem entry?_eq_file_iff {content : Option String} :
    t.entry? p = some (.file content) ↔ t.entries.lookup p = some (.file content) := by
  unfold entry?
  cases t.entries.lookup p with
  | some e => rfl
  | none => simp

/-- Directories may also be implied by what is below them. -/
theorem entry?_eq_directory_iff :
    t.entry? p = some .directory ↔
      t.entries.lookup p = some .directory ∨
        t.entries.lookup p = none ∧ (p = [] ∨ ∃ other ∈ t.entries, p <+: other.1) := by
  unfold entry?
  cases t.entries.lookup p with
  | some e => simp
  | none => simp [Classical.or_iff_not_imp_left]

theorem exists_put_above (h : ∃ other ∈ t.entries, q <+: other.1) (e : Entry) :
    ∃ other ∈ (t.put p e).entries, q <+: other.1 := by
  obtain ⟨other, hmem, hq⟩ := h
  by_cases hp : other.1 = p
  · exact ⟨(p, e), List.mem_cons_self, hp ▸ hq⟩
  · exact ⟨other, List.mem_cons_of_mem _ (List.mem_filter.2 ⟨hmem, by simpa using hp⟩), hq⟩

theorem entry?_put_eq_file_iff (h : q ≠ p) (content : Option String) :
    FileTree.entry? (t.put p e) q = some (.file content) ↔ t.entry? q = some (.file content) := by
  rw [entry?_eq_file_iff, entry?_eq_file_iff, lookup_put_of_ne h]

theorem entry?_put_directory (h : q ≠ p) (hq : t.entry? q = some .directory) :
    FileTree.entry? (t.put p e) q = some .directory := by
  rw [entry?_eq_directory_iff] at hq ⊢
  rw [lookup_put_of_ne h]
  exact hq.imp_right fun hd => ⟨hd.1, hd.2.imp_right fun habove => exists_put_above habove e⟩

/-! ## Paths after a write -/

/-- Below a directory a path goes on; any other entry, or none, must be the end of it. -/
theorem follow_name_eq_ok_iff {from_ : Place} {name : List Char} {rest : List (List Char)}
    (hidle : ¬ Path.isIdle name = true) (hup : ¬ (name == ['.', '.']) = true)
    (hlong : ¬ nameLimit < byteLength name) :
    t.follow from_ (name :: rest) = .ok place ↔
      t.entry? (from_ ++ [name]) = some .directory ∧ t.follow (from_ ++ [name]) rest = .ok place ∨
      t.entry? (from_ ++ [name]) ≠ some .directory ∧ rest = [] ∧ from_ ++ [name] = place := by
  rw [follow, if_neg hidle, if_neg hup, if_neg hlong]
  cases hentry : t.entry? (from_ ++ [name]) with
  | none => cases rest <;> simp [hentry]
  | some e =>
    cases e with
    | directory => simp [hentry]
    | file content => cases rest <;> simp [hentry]

/-- A path leads to the same place when a file has been put there. -/
theorem follow_put {from_ : Place} {names : List (List Char)} {content : Option String}
    (hplace : t.entry? place ≠ some .directory) (h : t.follow from_ names = .ok place) :
    (t.put place (.file content)).follow from_ names = .ok place := by
  induction names generalizing from_ with
  | nil => exact h
  | cons name rest ih =>
    by_cases hidle : Path.isIdle name = true
    · rw [follow, if_pos hidle] at h ⊢
      exact ih h
    by_cases hup : (name == ['.', '.']) = true
    · rw [follow, if_neg hidle, if_pos hup] at h ⊢
      exact ih h
    by_cases hlong : nameLimit < byteLength name
    · rw [follow, if_neg hidle, if_neg hup, if_pos hlong] at h
      cases h
    rw [follow_name_eq_ok_iff hidle hup hlong] at h ⊢
    rcases h with ⟨hentry, h⟩ | ⟨-, rfl, rfl⟩
    · have hne : from_ ++ [name] ≠ place := fun heq => hplace (heq ▸ hentry)
      exact Or.inl ⟨entry?_put_directory hne hentry, ih h⟩
    · exact Or.inr ⟨by simp [entry?_put_self], rfl, rfl⟩

/-- A file that is put somewhere does not take the working directory away. -/
theorem workingPlace_put {content : Option String} (hplace : t.entry? place ≠ some .directory)
    (h : t.workingPlace directory = .ok p) :
    (t.put place (.file content)).workingPlace directory = .ok p := by
  cases directory with
  | error fault => cases h
  | ok directory =>
    simp only [workingPlace] at h ⊢
    split at h
    · rename_i hentry
      obtain rfl := Except.ok.inj h
      have hne : _ ≠ place := fun heq => hplace (heq ▸ hentry)
      rw [if_pos (entry?_put_directory hne hentry)]
    · cases h

theorem start_put {content : Option String} {names : List (List Char)} {path : List Char}
    (hplace : t.entry? place ≠ some .directory) (h : t.start directory path = .ok (p, names)) :
    (t.put place (.file content)).start directory path = .ok (p, names) := by
  unfold start at h ⊢
  split at h
  · cases h
  split at h
  · cases h
  split at h
  · cases h
  rename_i hzero hempty hlong
  rw [if_neg hzero, if_neg hempty, if_neg hlong]
  obtain ⟨from_, hfrom, hpair⟩ := Except.map_eq_ok_iff.1 h
  refine Except.map_eq_ok_iff.2 ⟨from_, ?_, hpair⟩
  split at hfrom
  · rwa [if_pos ‹_›]
  · rw [if_neg ‹_›]
    exact workingPlace_put hplace hfrom

theorem locate_put {content : Option String} (hplace : t.entry? place ≠ some .directory)
    (h : t.locate directory path = .ok place) :
    (t.put place (.file content)).locate directory path = .ok place := by
  obtain ⟨⟨from_, names⟩, hstart, hfollow⟩ := Except.bind_eq_ok_iff.1 h
  exact Except.bind_eq_ok_iff.2
    ⟨(from_, names), start_put hplace hstart, follow_put hplace hfollow⟩

/-- A write puts a file at the place that its path leads to, unless that is a directory. -/
theorem writeText_eq_ok (h : t.writeText directory path text = .ok t') :
    ∃ place, t.locate directory path = .ok place ∧ t.entry? place ≠ some .directory ∧
      t' = t.put place (.file (some text)) := by
  obtain ⟨⟨from_, names⟩, hstart, h⟩ := Except.bind_eq_ok_iff.1 h
  simp only at h
  split at h
  · obtain ⟨_, -, h⟩ := Except.bind_eq_ok_iff.1 h
    cases h
  · obtain ⟨place, hfollow, h⟩ := Except.bind_eq_ok_iff.1 h
    have hlocate : t.locate directory path = .ok place :=
      Except.bind_eq_ok_iff.2 ⟨(from_, names), hstart, hfollow⟩
    split at h
    · cases h
    · rename_i hplace
      obtain rfl := Except.ok.inj h
      exact ⟨place, hlocate, hplace, rfl⟩

theorem readText_of_locate (hlocate : t.locate directory path = .ok place)
    (hentry : t.entry? place = some (.file (some text))) :
    t.readText directory path = .ok text := by
  refine Except.bind_eq_ok_iff.2 ⟨place, hlocate, ?_⟩
  rw [hentry]

/-- What was written is read again, and it is the only file that changed. -/
theorem writeText_spec (h : t.writeText directory path text = .ok t') :
    t'.readText directory path = .ok text ∧
      ∃ place, t.locate directory path = .ok place ∧ t'.locate directory path = .ok place ∧
        ∀ p ≠ place, ∀ content,
          t'.entry? p = some (.file content) ↔ t.entry? p = some (.file content) := by
  obtain ⟨place, hlocate, hplace, rfl⟩ := writeText_eq_ok h
  have hlocate' : (t.put place (.file (some text))).locate directory path = .ok place :=
    locate_put hplace hlocate
  exact ⟨readText_of_locate hlocate' entry?_put_self, place, hlocate, hlocate',
    fun p hp content => entry?_put_eq_file_iff hp content⟩

end AgentPrompt.CommandLine.FileTree
