import AgentPrompt.Proofs.Template.Layout

/-! A delimiter or marker could arise in a filled template across the end of a value. It does not
where the literal texts differ from it under every shift. -/
namespace AgentPrompt.Text

variable {m l u v : List Char}

/-- Whether two texts that begin side by side differ before one of them ends. -/
def differ : List Char → List Char → Bool
  | a :: as, b :: bs => a != b || differ as bs
  | _, _ => false

/-- Whether `m` differs from each end of a text, the text itself being one. -/
def differsFromEnds (m : List Char) : List Char → Bool
  | [] => true
  | c :: l => differ m (c :: l) && differsFromEnds m l

/-- No occurrence of `m` can lie in the text or reach into it. -/
structure Barrier (m l : List Char) : Prop where
  startsInside : differsFromEnds m l = true
  endsInside : differsFromEnds l m = true

instance (m l : List Char) : Decidable (Barrier m l) :=
  decidable_of_iff (differsFromEnds m l = true ∧ differsFromEnds l m = true)
    ⟨fun h => ⟨h.1, h.2⟩, fun h => ⟨h.startsInside, h.endsInside⟩⟩

theorem differ_eq_false (h : u <+: v) : differ u v = false ∧ differ v u = false := by
  induction u generalizing v with
  | nil => cases v <;> exact ⟨rfl, rfl⟩
  | cons c u ih =>
    cases v with
    | nil => cases List.prefix_nil.1 h
    | cons d v =>
      obtain ⟨rfl, htail⟩ := List.cons_prefix_cons.1 h
      simpa [differ] using ih htail

theorem differ_of_differsFromEnds (h : differsFromEnds m l = true) {e : List Char} (he : e <:+ l)
    (hne : e ≠ []) : differ m e = true := by
  induction l with
  | nil => exact absurd (List.suffix_nil.1 he) hne
  | cons c l ih =>
    rw [differsFromEnds, Bool.and_eq_true] at h
    rcases List.suffix_cons_iff.1 he with rfl | he
    · exact h.1
    · exact ih h.2 he

theorem Barrier.not_prefix (h : Barrier m l) {e : List Char} (he : e <:+ l) (hne : e ≠ []) :
    ¬ m <+: e ∧ ¬ e <+: m := by
  have hd := differ_of_differsFromEnds h.startsInside he hne
  constructor
  · intro hp
    rw [(differ_eq_false hp).1] at hd
    cases hd
  · intro hp
    rw [(differ_eq_false hp).2] at hd
    cases hd

theorem Barrier.symm (h : Barrier m l) : Barrier l m :=
  ⟨h.endsInside, h.startsInside⟩

theorem Barrier.not_infix (h : Barrier m l) (hm : m ≠ []) : ¬ m <:+: l := by
  intro hi
  obtain ⟨e, hp, he⟩ := List.infix_iff_prefix_suffix.1 hi
  have hne : e ≠ [] := by
    rintro rfl
    exact hm (List.prefix_nil.1 hp)
  exact (h.not_prefix he hne).1 hp

/-- What occurs around a barrier occurs before it or after it. -/
theorem Barrier.infix_append_iff (h : Barrier m l) (hm : m ≠ []) :
    m <:+: u ++ (l ++ v) ↔ m <:+: u ∨ m <:+: v := by
  constructor
  · intro hi
    rcases List.infix_append_iff_ne_nil.1 hi with hu | hi | ⟨x, y, -, hy, rfl, -, hp⟩
    · exact Or.inl hu
    · rcases List.infix_append_iff_ne_nil.1 hi with hl | hv | ⟨x, y, hx, -, rfl, hs, -⟩
      · exact absurd hl (h.not_infix hm)
      · exact Or.inr hv
      · exact absurd (List.prefix_append x y) (h.not_prefix hs hx).2
    · -- An end of `m` begins with the barrier, or the barrier with it.
      have hends := h.symm.not_prefix (List.suffix_append x y) hy
      rcases List.prefix_or_prefix_of_prefix hp (List.prefix_append l v) with hyl | hly
      · exact absurd hyl hends.2
      · exact absurd hly hends.1
  · rintro (hu | hv)
    · exact hu.trans List.infix_append_left
    · exact (hv.trans List.infix_append_right).trans List.infix_append_right

end AgentPrompt.Text

namespace AgentPrompt.Template.Layout

variable {m : List Char}

def Seals (l : Layout) (m : List Char) : Prop :=
  ∀ text ∈ l.first :: l.slots.map Slot.after, Text.Barrier m text

instance (l : Layout) (m : List Char) : Decidable (l.Seals m) :=
  inferInstanceAs (Decidable (∀ text ∈ l.first :: l.slots.map Slot.after, Text.Barrier m text))

theorem infix_append_filled_iff (b : Bindings) {first : List Char} {slots : List Slot}
    (h : Seals ⟨first, slots⟩ m) (hm : m ≠ []) (u : List Char) :
    m <:+: u ++ filled ⟨first, slots⟩ b ↔ m <:+: u ∨ ∃ s ∈ slots, m <:+: rendered b s.name := by
  induction slots generalizing first u with
  | nil =>
    have hfirst := h first List.mem_cons_self
    simpa [filled, hm] using hfirst.infix_append_iff (u := u) (v := []) hm
  | cons s slots ih =>
    have hfirst := h first List.mem_cons_self
    have hmore : Seals ⟨s.after, slots⟩ m := fun text ht => h text (List.mem_cons_of_mem _ ht)
    rw [filled_cons, hfirst.infix_append_iff hm, ih hmore]
    simp

/-- In a filled layout, what its literal texts keep out occurs only inside values. -/
theorem Seals.infix_filled_iff {l : Layout} (h : l.Seals m) (hm : m ≠ []) (b : Bindings) :
    m <:+: l.filled b ↔ ∃ s ∈ l.slots, m <:+: rendered b s.name := by
  obtain ⟨first, slots⟩ := l
  simpa [hm] using infix_append_filled_iff b h hm []

theorem rendered_infix_filled {l : Layout} {s : Slot} (hs : s ∈ l.slots) (b : Bindings) :
    rendered b s.name <:+: l.filled b := by
  obtain ⟨before, after, hsplit⟩ := List.append_of_mem hs
  rw [filled, hsplit]
  simp only [List.flatMap_append, List.flatMap_cons, List.append_assoc]
  exact ((List.infix_append_left.trans List.infix_append_right).trans
    List.infix_append_right)

end AgentPrompt.Template.Layout
