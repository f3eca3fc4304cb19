import AgentPrompt.Tool.Registry
import AgentPrompt.Proofs.Except
import Mathlib.Data.List.Induction
import Mathlib.Data.List.Nodup

/-! The registry only ever grows at its end, so every snapshot stays a prefix of it. -/
namespace AgentPrompt

/-! ## Lookups -/

theorem Tool.named_eq_error_iff {tools : List Tool} {name : String} {e : Error} :
    Tool.named tools name = .error e ↔ name ∉ tools.map (·.name) ∧ e = .toolNotFound name := by
  unfold Tool.named
  cases hf : tools.find? (·.name == name) with
  | none =>
    have hn : name ∉ tools.map (·.name) := by simpa using hf
    simp [hn, eq_comm]
  | some t =>
    have hn : name ∈ tools.map (·.name) :=
      List.mem_map.2 ⟨t, List.mem_of_find?_eq_some hf, by simpa using List.find?_some hf⟩
    simp [hn]

/-- A tool that is found stays found when more tools follow. -/
theorem Tool.named_of_prefix {tools more : List Tool} (h : tools <+: more) {name : String} {t : Tool}
    (ht : Tool.named tools name = .ok t) : Tool.named more name = .ok t := by
  obtain ⟨rest, rfl⟩ := h
  unfold Tool.named at ht ⊢
  cases hf : tools.find? (·.name == name) with
  | none => simp [hf] at ht
  | some u => simpa [List.find?_append, hf] using ht

namespace Registry

theorem register_of_mem {r : Registry} {t : Tool} (h : t.name ∈ r.names) :
    r.register t = .error (.duplicateTool t.name) := by
  rw [register, dif_pos ((r.contains_iff _).2 h)]

theorem exists_register {r : Registry} {t : Tool} (h : t.name ∉ r.names) :
    ∃ r', r.register t = .ok r' ∧ r'.tools = r.tools ++ [t] := by
  rw [register, dif_neg fun hc => h ((r.contains_iff _).1 hc)]
  exact ⟨_, rfl, rfl⟩

theorem register_eq_error_iff {r : Registry} {t : Tool} {e : Error} :
    r.register t = .error e ↔ t.name ∈ r.names ∧ e = .duplicateTool t.name := by
  by_cases h : t.name ∈ r.names
  · rw [register_of_mem h]
    simp [h, eq_comm]
  · obtain ⟨r', hr, -⟩ := exists_register h
    simp [hr, h]

/-! ## Sessions -/

inductive Step where
  | register (tool : Tool)
  | snapshot
  | get (name : String)
  /-- Looks a name up in the snapshot with this number, counted from zero. -/
  | getIn (number : Nat) (name : String)

inductive Answer where
  | done
  | found (tool : Tool)
  | failed (error : Error)
  deriving DecidableEq

def Answer.ofLookup : Except Error Tool → Answer
  | .ok t => .found t
  | .error e => .failed e

/-- A registry with the snapshots that were taken of it, oldest first. -/
structure Session where
  registry : Registry := .empty
  snapshots : List Snapshot := []

namespace Session

/-- The session after a step. A registration that fails changes nothing. -/
def next (s : Session) : Step → Session
  | .register t =>
    match s.registry.register t with
    | .ok r => { s with registry := r }
    | .error _ => s
  | .snapshot => { s with snapshots := s.snapshots ++ [s.registry.snapshot] }
  | .get _ => s
  | .getIn _ _ => s

/-- What a step answers. There is nothing in a snapshot that was not taken. -/
def answer (s : Session) : Step → Answer
  | .register t =>
    match s.registry.register t with
    | .ok _ => .done
    | .error e => .failed e
  | .snapshot => .done
  | .get name => .ofLookup (s.registry.get name)
  | .getIn number name => .ofLookup ((s.snapshots[number]?.getD {}).get name)

def run (steps : List Step) : Session :=
  steps.foldl next {}

theorem run_concat (steps : List Step) (x : Step) : run (steps ++ [x]) = (run steps).next x := by
  simp [run]

theorem next_register_of_mem {s : Session} {t : Tool} (h : t.name ∈ s.registry.names) :
    s.next (.register t) = s := by
  simp [next, register_of_mem h]

theorem tools_next_register {s : Session} {t : Tool} (h : t.name ∉ s.registry.names) :
    (s.next (.register t)).registry.tools = s.registry.tools ++ [t] := by
  obtain ⟨r, hr, ht⟩ := exists_register h
  simp [next, hr, ht]

theorem answer_register_eq_failed_iff {s : Session} {t : Tool} {e : Error} :
    s.answer (.register t) = .failed e ↔
      t.name ∈ s.registry.names ∧ e = .duplicateTool t.name := by
  rw [← register_eq_error_iff, answer]
  cases s.registry.register t <;> simp

theorem ofLookup_eq_found_iff {x : Except Error Tool} {t : Tool} :
    Answer.ofLookup x = .found t ↔ x = .ok t := by
  cases x <;> simp [Answer.ofLookup]

/-- What one step keeps: the tools and the snapshots that are there stay where they are. -/
theorem prefix_next (s : Session) (x : Step) :
    s.registry.tools <+: (s.next x).registry.tools ∧ s.snapshots <+: (s.next x).snapshots := by
  cases x with
  | register t =>
    by_cases h : t.name ∈ s.registry.names
    · rw [next_register_of_mem h]
      exact ⟨List.prefix_rfl, List.prefix_rfl⟩
    · rw [tools_next_register h]
      obtain ⟨r, hr, -⟩ := exists_register h
      simp [next, hr]
  | snapshot => exact ⟨List.prefix_rfl, List.prefix_append _ _⟩
  | get name => exact ⟨List.prefix_rfl, List.prefix_rfl⟩
  | getIn number name => exact ⟨List.prefix_rfl, List.prefix_rfl⟩

theorem prefix_run_append (before after : List Step) :
    (run before).registry.tools <+: (run (before ++ after)).registry.tools ∧
      (run before).snapshots <+: (run (before ++ after)).snapshots := by
  induction after using List.reverseRecOn with
  | nil => simp
  | append_singleton after x ih =>
    rw [← List.append_assoc, run_concat]
    have hx := prefix_next (run (before ++ after)) x
    exact ⟨ih.1.trans hx.1, ih.2.trans hx.2⟩

/-! ## First offers -/

def offers (steps : List Step) : List Tool :=
  steps.filterMap fun
    | .register t => some t
    | _ => none

/-- The offers whose name was not offered before them; `before` are the names offered earlier. -/
def firstOffers (before : List String) : List Tool → List Tool
  | [] => []
  | t :: rest =>
    (if t.name ∈ before then [] else [t]) ++ firstOffers (before ++ [t.name]) rest

theorem firstOffers_concat (before : List String) (tools : List Tool) (t : Tool) :
    firstOffers before (tools ++ [t]) = firstOffers before tools ++
      if t.name ∈ before ++ tools.map (·.name) then [] else [t] := by
  induction tools generalizing before with
  | nil => simp [firstOffers]
  | cons u tools ih => simp [firstOffers, ih]

theorem mem_names_firstOffers_iff {before : List String} {tools : List Tool} {name : String} :
    name ∈ (firstOffers before tools).map (·.name) ↔
      name ∈ tools.map (·.name) ∧ name ∉ before := by
  induction tools using List.reverseRecOn with
  | nil => simp [firstOffers]
  | append_singleton tools t ih =>
    rw [firstOffers_concat, List.map_append, List.mem_append, ih]
    by_cases ht : t.name ∈ before ++ tools.map (·.name)
    · rw [if_pos ht]
      simp only [List.map_nil, List.not_mem_nil, or_false, List.map_append, List.map_cons,
        List.mem_append, List.mem_singleton] at ht ⊢
      constructor
      · exact fun h => ⟨Or.inl h.1, h.2⟩
      · rintro ⟨h | rfl, hb⟩
        · exact ⟨h, hb⟩
        · exact ⟨ht.resolve_left hb, hb⟩
    · rw [if_neg ht]
      simp only [List.mem_append, not_or] at ht
      simp only [List.map_append, List.map_cons, List.map_nil, List.mem_append,
        List.mem_singleton]
      constructor
      · rintro (h | rfl)
        · exact ⟨Or.inl h.1, h.2⟩
        · exact ⟨Or.inr rfl, ht.1⟩
      · rintro ⟨h | rfl, hb⟩
        · exact Or.inl ⟨h, hb⟩
        · exact Or.inr rfl

/-- The registry holds the first offer of each name, in the order of the offers. -/
theorem tools_run (steps : List Step) :
    (run steps).registry.tools = firstOffers [] (offers steps) := by
  induction steps using List.reverseRecOn with
  | nil => rfl
  | append_singleton steps x ih =>
    rw [run_concat]
    cases x with
    | register t =>
      have hoffers : offers (steps ++ [.register t]) = offers steps ++ [t] := by simp [offers]
      have hnames : t.name ∈ (run steps).registry.names ↔
          t.name ∈ [] ++ (offers steps).map (·.name) := by
        rw [names, ih, mem_names_firstOffers_iff]
        simp
      rw [hoffers, firstOffers_concat, ← ih]
      by_cases h : t.name ∈ (run steps).registry.names
      · rw [next_register_of_mem h, if_pos (hnames.1 h), List.append_nil]
      · rw [tools_next_register h, if_neg fun hn => h (hnames.2 hn)]
    | snapshot => simpa [next, offers] using ih
    | get name => simpa [next, offers] using ih
    | getIn number name => simpa [next, offers] using ih

/-! ## Snapshots -/

/-- A snapshot keeps its number, and with it the tools of the moment at which it was taken. -/
theorem snapshots_run_snapshot (before after : List Step) :
    (run (before ++ .snapshot :: after)).snapshots[(run before).snapshots.length]? =
      some (run before).registry.snapshot := by
  have hsplit : before ++ .snapshot :: after = (before ++ [.snapshot]) ++ after := by simp
  obtain ⟨later, hlater⟩ := (prefix_run_append (before ++ [.snapshot]) after).2
  rw [hsplit, ← hlater, run_concat]
  simp [next]

/-- Every snapshot was taken at some moment of the run. -/
theorem exists_moment {steps : List Step} {snap : Snapshot} (h : snap ∈ (run steps).snapshots) :
    ∃ before after, steps = before ++ .snapshot :: after ∧
      snap = (run before).registry.snapshot := by
  induction steps using List.reverseRecOn with
  | nil => simp [run] at h
  | append_singleton steps x ih =>
    have hearlier : snap ∈ (run steps).snapshots → ∃ before after,
        steps ++ [x] = before ++ .snapshot :: after ∧ snap = (run before).registry.snapshot := by
      intro hs
      obtain ⟨before, after, rfl, hsnap⟩ := ih hs
      exact ⟨before, after ++ [x], by simp, hsnap⟩
    rw [run_concat] at h
    cases x with
    | register t =>
      apply hearlier
      simp only [next] at h
      split at h <;> exact h
    | snapshot =>
      simp only [next, List.mem_append, List.mem_singleton] at h
      rcases h with h | rfl
      · exact hearlier h
      · exact ⟨steps, [], rfl, rfl⟩
    | get name => exact hearlier h
    | getIn number name => exact hearlier h

theorem answer_getIn (before after : List Step) (name : String) :
    (run (before ++ .snapshot :: after)).answer (.getIn (run before).snapshots.length name) =
      .ofLookup ((run before).registry.get name) := by
  rw [answer, snapshots_run_snapshot]
  rfl

end Session

/-! ## Registries made from a list -/

theorem exists_foldlM_register {r : Registry} {tools : List Tool}
    (h : (r.names ++ tools.map (·.name)).Nodup) :
    ∃ r', tools.foldlM register r = .ok r' ∧ r'.tools = r.tools ++ tools := by
  induction tools generalizing r with
  | nil => exact ⟨r, rfl, by simp⟩
  | cons t tools ih =>
    have hmove : r.names ++ (t :: tools).map (·.name) =
        (r.names ++ [t.name]) ++ tools.map (·.name) := by simp
    rw [hmove] at h
    have ht : t.name ∉ r.names := by
      intro hm
      have hdisjoint := (List.nodup_append.1 (List.nodup_append.1 h).1).2.2
      exact hdisjoint t.name hm t.name (by simp) rfl
    obtain ⟨r₁, hr₁, htools₁⟩ := exists_register ht
    have hnames : r₁.names = r.names ++ [t.name] := by simp [names, htools₁]
    rw [← hnames] at h
    obtain ⟨r', hr', htools⟩ := ih h
    refine ⟨r', ?_, by rw [htools, htools₁, List.append_assoc, List.singleton_append]⟩
    rw [List.foldlM_cons, hr₁]
    exact hr'

theorem exists_ofTools {tools : List Tool} (h : (tools.map (·.name)).Nodup) :
    ∃ r, ofTools tools = .ok r ∧ r.tools = tools := by
  have hempty : (empty.names ++ tools.map (·.name)).Nodup := h
  obtain ⟨r, hr, ht⟩ := exists_foldlM_register hempty
  exact ⟨r, hr, ht⟩

/-- The first tool that repeats a name is the one that is refused. -/
theorem ofTools_repeated {front back : List Tool} {t : Tool} (hf : (front.map (·.name)).Nodup)
    (ht : t.name ∈ front.map (·.name)) :
    ofTools (front ++ t :: back) = .error (.duplicateTool t.name) := by
  obtain ⟨r, hr, htools⟩ := exists_ofTools hf
  have hmem : t.name ∈ r.names := by rwa [names, htools]
  rw [ofTools] at hr
  rw [ofTools, List.foldlM_append, hr]
  show (t :: back).foldlM register r = _
  rw [List.foldlM_cons, register_of_mem hmem]
  rfl

theorem exists_first_repeated {tools : List Tool} (h : ¬ (tools.map (·.name)).Nodup) :
    ∃ front t back, tools = front ++ t :: back ∧ (front.map (·.name)).Nodup ∧
      t.name ∈ front.map (·.name) := by
  induction tools using List.reverseRecOn with
  | nil => simp at h
  | append_singleton tools t ih =>
    by_cases hd : (tools.map (·.name)).Nodup
    · refine ⟨tools, t, [], rfl, hd, ?_⟩
      by_contra ht
      apply h
      rw [List.map_append]
      exact List.Nodup.append hd (List.nodup_singleton t.name) (by simpa using ht)
    · obtain ⟨front, u, back, rfl, hf, hu⟩ := ih hd
      exact ⟨front, u, back ++ [t], by simp, hf, hu⟩

theorem ofTools_ok_iff (tools : List Tool) :
    (∃ r, ofTools tools = .ok r) ↔ (tools.map (·.name)).Nodup := by
  constructor
  · rintro ⟨r, hr⟩
    by_contra h
    obtain ⟨front, t, back, rfl, hf, ht⟩ := exists_first_repeated h
    rw [ofTools_repeated hf ht] at hr
    cases hr
  · intro h
    obtain ⟨r, hr, -⟩ := exists_ofTools h
    exact ⟨r, hr⟩

open Session in
/-- A session's registry holds the first offer of each name. Its snapshots keep the tools that were
there when they were taken, and find them for ever; later names they never find. A registry is made
from exactly the lists without a repeated name. -/
theorem run_keeps_first_offers_and_snapshots :
    (∀ steps : List Step,
      (run steps).registry.tools = firstOffers [] (offers steps) ∧
      (run steps).registry.names.Nodup ∧
      ∀ t e, ((run steps).answer (.register t) = .failed e ↔
          t.name ∈ (run steps).registry.names ∧ e = .duplicateTool t.name) ∧
        ((run steps).answer (.register t) = .failed e →
          run (steps ++ [.register t]) = run steps)) ∧
    (∀ (steps : List Step) (snap : Snapshot), snap ∈ (run steps).snapshots →
      ∃ before after, steps = before ++ .snapshot :: after ∧
        snap = (run before).registry.snapshot) ∧
    (∀ before after : List Step,
      let number := (run before).snapshots.length
      let later := run (before ++ .snapshot :: after)
      later.snapshots[number]? = some (run before).registry.snapshot ∧
      (run before).registry.snapshot.tools = (run before).registry.tools ∧
      (run before).registry.tools <+: later.registry.tools ∧
      (∀ name t, later.answer (.getIn number name) = .found t →
        later.answer (.get name) = .found t) ∧
      ∀ name, name ∉ (run before).registry.names →
        later.answer (.getIn number name) = .failed (.toolNotFound name)) ∧
    ∀ tools : List Tool,
      ((∃ r, ofTools tools = .ok r) ↔ (tools.map (·.name)).Nodup) ∧
      (∀ r, ofTools tools = .ok r → r.tools = tools) ∧
      (¬ (tools.map (·.name)).Nodup →
        ∃ front t back, tools = front ++ t :: back ∧ (front.map (·.name)).Nodup ∧
          t.name ∈ front.map (·.name) ∧ ofTools tools = .error (.duplicateTool t.name)) := by
  refine ⟨fun steps => ⟨tools_run steps, (run steps).registry.distinct, fun t e => ⟨?_, ?_⟩⟩,
    fun steps snap => exists_moment, fun before after => ?_, fun tools => ⟨?_, ?_, ?_⟩⟩
  · exact answer_register_eq_failed_iff
  · intro h
    rw [run_concat]
    exact next_register_of_mem (answer_register_eq_failed_iff.1 h).1
  · have hprefix := (prefix_run_append before (.snapshot :: after)).1
    refine ⟨snapshots_run_snapshot before after, rfl, hprefix, ?_, ?_⟩
    · intro name t h
      rw [answer_getIn, ofLookup_eq_found_iff] at h
      exact ofLookup_eq_found_iff.2 (Tool.named_of_prefix hprefix h)
    · intro name hname
      have hnone : (run before).registry.get name = .error (.toolNotFound name) :=
        Tool.named_eq_error_iff.2 ⟨hname, rfl⟩
      rw [answer_getIn, hnone]
      rfl
  · exact ofTools_ok_iff tools
  · intro r hr
    obtain ⟨r', hr', ht⟩ := exists_ofTools ((ofTools_ok_iff tools).1 ⟨r, hr⟩)
    obtain rfl := Except.ok.inj (hr.symm.trans hr')
    exact ht
  · intro h
    obtain ⟨front, t, back, rfl, hf, ht⟩ := exists_first_repeated h
    exact ⟨front, t, back, rfl, hf, ht, ofTools_repeated hf ht⟩

open Session in
/-- A second offer of a name fails, and a name that comes after a snapshot is not in it. -/
theorem run_keeps_first_offers_and_snapshots_at_impostor :
    let reader : Tool := { name := "read" }
    let impostor : Tool := { name := "read", description := "impostor" }
    let shell : Tool := { name := "shell" }
    let later := run ([.register reader] ++ .snapshot :: [.register impostor, .register shell])
    (run [.register reader]).answer (.register impostor) = .failed (.duplicateTool "read") ∧
      run ([.register reader] ++ [.register impostor]) = run [.register reader] ∧
      later.answer (.getIn 0 "read") = .found reader ∧ later.answer (.get "read") = .found reader ∧
      "shell" ∉ (run [.register reader]).registry.names ∧
      later.answer (.getIn 0 "shell") = .failed (.toolNotFound "shell") ∧
      ¬ ([reader, shell, impostor].map (·.name)).Nodup ∧
      ∃ e, ofTools [reader, shell, impostor] = .error e := by
  intro reader impostor shell later
  obtain ⟨hruns, -, hsnapshots, hlists⟩ := run_keeps_first_offers_and_snapshots
  have hfails : (run [.register reader]).answer (.register impostor) =
      .failed (.duplicateTool "read") := by decide
  have hfound : later.answer (.getIn 0 "read") = .found reader := by decide
  have hnew : "shell" ∉ (run [.register reader]).registry.names := by decide
  have hrepeated : ¬ ([reader, shell, impostor].map (·.name)).Nodup := by decide
  obtain ⟨-, -, -, hlasting, hmissing⟩ :=
    hsnapshots [.register reader] [.register impostor, .register shell]
  obtain ⟨front, t, back, -, -, -, hduplicate⟩ := (hlists [reader, shell, impostor]).2.2 hrepeated
  exact ⟨hfails, ((hruns [.register reader]).2.2 impostor _).2 hfails, hfound,
    hlasting "read" reader hfound, hnew, hmissing "shell" hnew, hrepeated, _, hduplicate⟩

end Registry
end AgentPrompt
