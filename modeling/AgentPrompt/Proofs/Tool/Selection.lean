import AgentPrompt.Tool.Catalog
import AgentPrompt.Proofs.Tool.RegistryRuns
import Mathlib.Data.List.Count

namespace AgentPrompt.Catalog

variable {c : Catalog} {enabled : List String}

def names (c : Catalog) : List String :=
  c.tools.map (·.name)

def chosen (c : Catalog) (enabled : List String) : List Tool :=
  c.tools.filter fun t => t.name ∈ enabled

/-- Selects the enabled tools and registers them. -/
def registerEnabled (c : Catalog) (enabled : List String) : Except Error Registry :=
  c.select (some enabled) >>= Registry.ofCatalog

/-! ## Selection -/

theorem any_name_eq (c : Catalog) (n : String) :
    (c.tools.any fun t => t.name == n) = decide (n ∈ c.names) := by
  rw [Bool.eq_iff_iff]
  simp [names]

theorem select_eq (c : Catalog) (enabled : List String) :
    c.select (some enabled) =
      match enabled.find? fun n => n ∉ c.names with
      | some missing => .error (.toolNotFound missing)
      | none => .ok ⟨c.chosen enabled⟩ := by
  simp only [select, any_name_eq, ← decide_not]
  rfl

theorem select_of_known (h : ∀ n ∈ enabled, n ∈ c.names) :
    c.select (some enabled) = .ok ⟨c.chosen enabled⟩ := by
  have hnone : (enabled.find? fun n => n ∉ c.names) = none := by
    simpa [List.find?_eq_none] using h
  rw [select_eq, hnone]

/-- The first enabled name that is unknown is the one that is reported. -/
theorem select_of_unknown {before after : List String} {n : String}
    (hbefore : ∀ m ∈ before, m ∈ c.names) (hn : n ∉ c.names) :
    c.select (some (before ++ n :: after)) = .error (.toolNotFound n) := by
  have hfirst : ((before ++ n :: after).find? fun n => n ∉ c.names) = some n := by
    rw [List.find?_eq_some_iff_append]
    exact ⟨by simpa using hn, before, after, rfl, by simpa using hbefore⟩
  rw [select_eq, hfirst]

theorem known_or_first_unknown (c : Catalog) (enabled : List String) :
    (∀ n ∈ enabled, n ∈ c.names) ∨
      ∃ before n after, enabled = before ++ n :: after ∧ (∀ m ∈ before, m ∈ c.names) ∧
        n ∉ c.names := by
  cases hf : enabled.find? fun n => n ∉ c.names with
  | none => exact Or.inl (by simpa [List.find?_eq_none] using hf)
  | some n =>
    obtain ⟨hn, before, after, rfl, hbefore⟩ := List.find?_eq_some_iff_append.1 hf
    exact Or.inr ⟨before, n, after, rfl, by simpa using hbefore, by simpa using hn⟩

/-! ## Chosen entries -/

theorem names_chosen (c : Catalog) (enabled : List String) :
    (c.chosen enabled).map (·.name) = c.names.filter fun n => n ∈ enabled := by
  rw [names, List.filter_map]
  rfl

theorem mem_names_chosen_iff {n : String} :
    n ∈ (c.chosen enabled).map (·.name) ↔ n ∈ c.names ∧ n ∈ enabled := by
  simp [names_chosen]

theorem nodup_names_chosen_iff :
    ((c.chosen enabled).map (·.name)).Nodup ↔ ∀ n ∈ enabled, c.names.count n ≤ 1 := by
  rw [names_chosen, List.nodup_iff_count_le_one]
  constructor
  · intro h n hn
    have hcount := h n
    rwa [List.count_filter (by simpa using hn)] at hcount
  · intro h n
    by_cases hn : n ∈ enabled
    · rw [List.count_filter (by simpa using hn)]
      exact h n hn
    · have hout : n ∉ c.names.filter fun n => n ∈ enabled := by simp [hn]
      rw [List.count_eq_zero.2 hout]
      exact Nat.zero_le 1

theorem chosen_congr {other : List String} (h : ∀ n, n ∈ other ↔ n ∈ enabled) :
    c.chosen other = c.chosen enabled := by
  simp only [chosen, h]

theorem chosen_chosen (c : Catalog) (enabled : List String) :
    (⟨c.chosen enabled⟩ : Catalog).chosen enabled = c.chosen enabled := by
  simp [chosen, List.filter_filter]

theorem select_select {c' : Catalog} (h : c.select (some enabled) = .ok c') :
    c'.select (some enabled) = .ok c' := by
  rcases known_or_first_unknown c enabled with hknown | ⟨before, n, after, rfl, hbefore, hn⟩
  · rw [select_of_known hknown] at h
    obtain rfl := Except.ok.inj h
    have hstill : ∀ n ∈ enabled, n ∈ (⟨c.chosen enabled⟩ : Catalog).names :=
      fun n hn => mem_names_chosen_iff.2 ⟨hknown n hn, hn⟩
    rw [select_of_known hstill, chosen_chosen]
  · rw [select_of_unknown hbefore hn] at h
    cases h

/-! ## Registration of the chosen entries -/

theorem registerEnabled_of_known (h : ∀ n ∈ enabled, n ∈ c.names) :
    c.registerEnabled enabled = Registry.ofTools (c.chosen enabled) := by
  rw [registerEnabled, select_of_known h]
  rfl

theorem registerEnabled_of_unknown {before after : List String} {n : String}
    (hbefore : ∀ m ∈ before, m ∈ c.names) (hn : n ∉ c.names) :
    c.registerEnabled (before ++ n :: after) = .error (.toolNotFound n) := by
  rw [registerEnabled, select_of_unknown hbefore hn]
  rfl

theorem count_eq_one_iff_known :
    (∀ n ∈ enabled, c.names.count n = 1) ↔
      (∀ n ∈ enabled, n ∈ c.names) ∧ ∀ n ∈ enabled, c.names.count n ≤ 1 := by
  constructor
  · intro h
    refine ⟨fun n hn => ?_, fun n hn => Nat.le_of_eq (h n hn)⟩
    rw [← List.count_pos_iff, h n hn]
    exact Nat.one_pos
  · rintro ⟨hknown, honce⟩ n hn
    exact Nat.le_antisymm (honce n hn) (List.count_pos_iff.2 (hknown n hn))

theorem exists_registerEnabled_iff :
    (∃ r, c.registerEnabled enabled = .ok r) ↔ ∀ n ∈ enabled, c.names.count n = 1 := by
  rw [count_eq_one_iff_known]
  rcases known_or_first_unknown c enabled with hknown | ⟨before, n, after, rfl, hbefore, hn⟩
  · rw [registerEnabled_of_known hknown, Registry.ofTools_ok_iff, nodup_names_chosen_iff]
    exact ⟨fun h => ⟨hknown, h⟩, fun h => h.2⟩
  · constructor
    · rintro ⟨r, hr⟩
      rw [registerEnabled_of_unknown hbefore hn] at hr
      cases hr
    · intro h
      exact absurd (h.1 n (by simp)) hn

theorem tools_registerEnabled {r : Registry} (h : c.registerEnabled enabled = .ok r) :
    r.tools = c.chosen enabled := by
  have hcount := exists_registerEnabled_iff.1 ⟨r, h⟩
  obtain ⟨hknown, honce⟩ := count_eq_one_iff_known.1 hcount
  obtain ⟨r', hr', ht⟩ := Registry.exists_ofTools (nodup_names_chosen_iff.2 honce)
  rw [registerEnabled_of_known hknown, hr'] at h
  obtain rfl := Except.ok.inj h
  exact ht

/-- Without a list of enabled tools all of them are registered. -/
theorem tools_of_select {c : Catalog} {enabled : Option (List String)} {r : Registry}
    (h : (c.select enabled).bind Registry.ofCatalog = .ok r) :
    r.tools = c.tools.filter fun tool => enabled.all fun names => tool.name ∈ names := by
  cases enabled with
  | none =>
    have hall : Registry.ofTools c.tools = .ok r := h
    obtain ⟨r', hr', htools⟩ := Registry.exists_ofTools ((Registry.ofTools_ok_iff _).1 ⟨r, hall⟩)
    obtain rfl := Except.ok.inj (hall.symm.trans hr')
    simp [htools]
  | some names => exact tools_registerEnabled h

/-- Only the chosen entries matter. -/
theorem registerEnabled_congr {c' : Catalog} (h : c'.chosen enabled = c.chosen enabled) :
    c'.registerEnabled enabled = c.registerEnabled enabled := by
  have hnames : ∀ n ∈ enabled, n ∈ c'.names ↔ n ∈ c.names := by
    intro n hn
    have hiff : n ∈ (c'.chosen enabled).map (·.name) ↔ n ∈ (c.chosen enabled).map (·.name) := by
      rw [h]
    simpa [mem_names_chosen_iff, hn] using hiff
  rcases known_or_first_unknown c enabled with hknown | ⟨before, n, after, rfl, hbefore, hn⟩
  · have hknown' : ∀ n ∈ enabled, n ∈ c'.names := fun n hn => (hnames n hn).2 (hknown n hn)
    rw [registerEnabled_of_known hknown, registerEnabled_of_known hknown', h]
  · have hbefore' : ∀ m ∈ before, m ∈ c'.names := fun m hm =>
      (hnames m (by simp [hm])).2 (hbefore m hm)
    have hn' : n ∉ c'.names := fun h => hn ((hnames n (by simp)).1 h)
    rw [registerEnabled_of_unknown hbefore hn, registerEnabled_of_unknown hbefore' hn']

/-- Enabled tools are registered exactly if each enabled name has one entry in the catalog. The
registry then has these entries in catalog order, however often and in whatever order their names are
given. An unknown name is reported first, then an entry that repeats a name. -/
theorem registerEnabled_exact (c : Catalog) (enabled : List String) :
    ((∃ r, c.registerEnabled enabled = .ok r) ↔ ∀ n ∈ enabled, c.names.count n = 1) ∧
    (∀ r, c.registerEnabled enabled = .ok r →
      r.tools = c.chosen enabled ∧
      (∀ t ∈ c.tools, t.name ∈ enabled → r.tools.count t = 1) ∧
      (∀ n, n ∈ r.names ↔ n ∈ enabled) ∧
      ∀ other : List String, (∀ n, n ∈ other ↔ n ∈ enabled) → c.registerEnabled other = .ok r) ∧
    (∀ before n after, enabled = before ++ n :: after → (∀ m ∈ before, m ∈ c.names) →
      n ∉ c.names → c.registerEnabled enabled = .error (.toolNotFound n)) ∧
    ((∀ n ∈ enabled, n ∈ c.names) → (∃ n ∈ enabled, 1 < c.names.count n) →
      ∃ front t back, c.chosen enabled = front ++ t :: back ∧ (front.map (·.name)).Nodup ∧
        t.name ∈ front.map (·.name) ∧
        c.registerEnabled enabled = .error (.duplicateTool t.name)) ∧
    (∀ c' : Catalog, c'.chosen enabled = c.chosen enabled →
      c'.registerEnabled enabled = c.registerEnabled enabled) ∧
    ∀ c', c.select (some enabled) = .ok c' → c'.select (some enabled) = .ok c' := by
  refine ⟨exists_registerEnabled_iff, fun r hr => ?_, ?_, fun hknown hrepeated => ?_,
    fun c' => registerEnabled_congr, fun c' => select_select⟩
  · have htools := tools_registerEnabled hr
    have hcount := exists_registerEnabled_iff.1 ⟨r, hr⟩
    have hknown := (count_eq_one_iff_known.1 hcount).1
    refine ⟨htools, fun t ht hn => ?_, fun n => ?_, fun other hother => ?_⟩
    · have hmem : t ∈ r.tools := by
        rw [htools]
        exact List.mem_filter.2 ⟨ht, by simpa using hn⟩
      exact List.count_eq_one_of_mem (List.Nodup.of_map _ r.distinct) hmem
    · rw [Registry.names, htools, mem_names_chosen_iff]
      exact ⟨fun h => h.2, fun h => ⟨hknown n h, h⟩⟩
    · have hknown' : ∀ n ∈ other, n ∈ c.names := fun n hn => hknown n ((hother n).1 hn)
      rw [← hr, registerEnabled_of_known hknown, registerEnabled_of_known hknown',
        chosen_congr hother]
  · rintro before n after rfl hbefore hn
    exact registerEnabled_of_unknown hbefore hn
  · have hnodup : ¬ ((c.chosen enabled).map (·.name)).Nodup := by
      rw [nodup_names_chosen_iff]
      intro h
      obtain ⟨n, hn, htwice⟩ := hrepeated
      exact absurd (h n hn) (Nat.not_le.2 htwice)
    obtain ⟨front, t, back, hsplit, hf, ht⟩ := Registry.exists_first_repeated hnodup
    refine ⟨front, t, back, hsplit, hf, ht, ?_⟩
    rw [registerEnabled_of_known hknown, hsplit]
    exact Registry.ofTools_repeated hf ht

def twofold : Catalog :=
  ⟨[{ name := "read" }, { name := "shell" }, { name := "shell", description := "again" },
    { name := "glob" }]⟩

/-- The repeated entry only matters where it is enabled, and an unknown name comes before it. -/
theorem registerEnabled_exact_twofold :
    (∃ r, twofold.registerEnabled ["glob", "read", "glob"] = .ok r ∧
      r.tools = [{ name := "read" }, { name := "glob" }] ∧
      twofold.registerEnabled ["read", "glob"] = .ok r ∧
      (⟨[{ name := "read" }, { name := "glob" }]⟩ : Catalog).registerEnabled
        ["glob", "read", "glob"] = .ok r) ∧
    twofold.registerEnabled ["shell", "grep", "find"] = .error (.toolNotFound "grep") ∧
    (∃ name, twofold.registerEnabled ["shell"] = .error (.duplicateTool name)) ∧
    ∃ c', twofold.select (some ["shell"]) = .ok c' ∧ c'.select (some ["shell"]) = .ok c' := by
  obtain ⟨hok, hregistry, -, -, hcongr, -⟩ :=
    registerEnabled_exact twofold ["glob", "read", "glob"]
  obtain ⟨r, hr⟩ := hok.2 (by decide)
  obtain ⟨htools, -, -, hsame⟩ := hregistry r hr
  have hother := hsame ["read", "glob"] (by simp [or_comm])
  have hpruned := hcongr ⟨[{ name := "read" }, { name := "glob" }]⟩ (by decide)
  obtain ⟨-, -, hunknown, -⟩ := registerEnabled_exact twofold ["shell", "grep", "find"]
  have hgrep := hunknown ["shell"] "grep" ["find"] rfl (by decide) (by decide)
  obtain ⟨-, -, -, hrepeated, -, hagain⟩ := registerEnabled_exact twofold ["shell"]
  obtain ⟨front, t, back, -, -, -, hduplicate⟩ := hrepeated (by decide) ⟨"shell", by decide⟩
  exact ⟨⟨r, hr, htools, hother, hpruned.trans hr⟩, hgrep, ⟨t.name, hduplicate⟩,
    _, rfl, hagain _ rfl⟩

end AgentPrompt.Catalog
