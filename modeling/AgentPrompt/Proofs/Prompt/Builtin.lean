import AgentPrompt.Markup
import AgentPrompt.Prompt.Builtin
import AgentPrompt.Proofs.Prompt.Variables
import AgentPrompt.Proofs.Template.Boundary
import AgentPrompt.Proofs.Template.Names

/-! A template whose literal texts keep out the delimiter and the retired markup renders to these
only where a value has them. Whether a template is of this kind can be computed from its text. -/
namespace AgentPrompt

def Context.values (c : Context) : List String :=
  c.bindings.entries.map fun e => e.2.render

namespace Prompt

/-- What a prompt may show only inside its values. -/
def guarded : List (List Char) :=
  Template.opener :: Markup.legacyMarkers.map String.toList

/-- The layout names the variables of a context and no others, and its literal texts keep out what is
guarded. -/
structure Transparent (l : Template.Layout) : Prop where
  known : ∀ s ∈ l.slots, s.name ∈ Context.variableNames
  complete : ∀ name ∈ Context.variableNames, name ∈ l.slots.map Template.Slot.name
  sealed : ∀ m ∈ guarded, l.Seals m

instance (l : Template.Layout) : Decidable (Transparent l) :=
  decidable_of_iff ((∀ s ∈ l.slots, s.name ∈ Context.variableNames) ∧
      (∀ name ∈ Context.variableNames, name ∈ l.slots.map Template.Slot.name) ∧
      ∀ m ∈ guarded, l.Seals m)
    ⟨fun h => ⟨h.1, h.2.1, h.2.2⟩, fun h => ⟨h.known, h.complete, h.sealed⟩⟩

def isTransparent (template : List Char) : Bool :=
  match Template.pieces template with
  | .ok ps => decide (Transparent (Template.Layout.ofPieces ps))
  | .error _ => false

theorem isTransparent_iff {template : List Char} :
    isTransparent template = true ↔
      ∃ ps, Template.pieces template = .ok ps ∧ Transparent (Template.Layout.ofPieces ps) := by
  rw [isTransparent]
  cases Template.pieces template <;> simp

theorem ne_nil_of_mem_guarded {m : List Char} (h : m ∈ guarded) : m ≠ [] := by
  have hall : ∀ m ∈ guarded, m ≠ [] := by decide
  exact hall m h

/-! ## Transparent layouts -/

section
variable {l : Template.Layout} (h : Transparent l) (c : Context)
include h

theorem Transparent.exists_slot_iff (p : List Char → Prop) :
    (∃ s ∈ l.slots, p (Template.rendered c.bindings s.name)) ↔ ∃ v ∈ c.values, p v.toList := by
  simp only [Context.values, List.mem_map, exists_exists_and_eq_and]
  constructor
  · rintro ⟨s, hs, hp⟩
    have hname := h.known s hs
    rw [← c.names_bindings, Bindings.names, List.mem_map] at hname
    obtain ⟨e, he, hname⟩ := hname
    rw [← hname, c.rendered_of_mem he] at hp
    exact ⟨e, he, hp⟩
  · rintro ⟨e, he, hp⟩
    have hname : e.1 ∈ Context.variableNames := by
      rw [← c.names_bindings]
      exact List.mem_map_of_mem he
    obtain ⟨s, hs, hsame⟩ := List.mem_map.1 (h.complete _ hname)
    refine ⟨s, hs, ?_⟩
    rwa [hsame, c.rendered_of_mem he]

theorem Transparent.value_infix_filled {v : String} (hv : v ∈ c.values) :
    v.toList <:+: l.filled c.bindings := by
  obtain ⟨s, hs, hp⟩ := (h.exists_slot_iff c (· = v.toList)).2 ⟨v, hv, rfl⟩
  rw [← hp]
  exact Template.Layout.rendered_infix_filled hs c.bindings

theorem Transparent.infix_filled_iff {m : List Char} (hm : m ∈ guarded) :
    m <:+: l.filled c.bindings ↔ ∃ v ∈ c.values, m <:+: v.toList := by
  rw [(h.sealed m hm).infix_filled_iff (ne_nil_of_mem_guarded hm)]
  exact h.exists_slot_iff c (m <:+: ·)

end

theorem renderWith_of_isTransparent {template : String}
    (h : isTransparent template.toList = true) (c : Context) :
    ∃ l, Transparent l ∧ renderWith c template = .ok (String.ofList (l.filled c.bindings)) := by
  obtain ⟨ps, hps, hl⟩ := isTransparent_iff.1 h
  refine ⟨_, hl, ?_⟩
  have hknown : ∀ s ∈ (Template.Layout.ofPieces ps).slots, c.bindings.contains s.name := by
    intro s hs
    simpa [c.contains_bindings] using hl.known s hs
  rw [renderWith, Template.compile_eq_map_fill hps, Template.fill_ofPieces _ _ hknown]
  rfl

/-! ## The built-in templates -/

set_option maxRecDepth 20000 in
theorem isTransparent_builtin (locale : Locale) : isTransparent (builtin locale).toList = true := by
  cases locale
  all_goals
    unfold builtin english chinese
    simp only [toString, String.toList_append]
    unfold Slot.osInfo Slot.projectPath Slot.currentFile Slot.buildTool Slot.shell Slot.timestamp
      Slot.projectStructure Slot.moduleInfo Slot.frameworkContext Slot.toolList Slot.agentRules slot
    simp only [String.toList_append]
    -- Without this, the characters would be decoded from the bytes of the literals.
    repeat rw [String.toList_ofList]
    decide +kernel

/-- A built-in prompt renders for every context and has each value of a variable in it. A delimiter or
retired marker occurs in it exactly if it occurs in a value. -/
theorem render_builtin (c : Context) (locale : Locale) :
    c.bindings.names = Context.variableNames ∧
    ∃ prompt, render c locale = .ok prompt ∧
      (∀ v ∈ c.values, v.toList <:+: prompt.toList) ∧
      (Template.opener <:+: prompt.toList ↔ ∃ v ∈ c.values, Template.opener <:+: v.toList) ∧
      (∀ m ∈ Markup.legacyMarkers,
        (m.toList <:+: prompt.toList ↔ ∃ v ∈ c.values, m.toList <:+: v.toList)) ∧
      (Markup.findLegacy? prompt.toList = none ↔
        ∀ v ∈ c.values, Markup.findLegacy? v.toList = none) := by
  obtain ⟨l, hl, hr⟩ := renderWith_of_isTransparent (isTransparent_builtin locale) c
  have hmarker : ∀ m ∈ Markup.legacyMarkers,
      (m.toList <:+: l.filled c.bindings ↔ ∃ v ∈ c.values, m.toList <:+: v.toList) :=
    fun m hm => hl.infix_filled_iff c (List.mem_cons_of_mem _ (List.mem_map_of_mem hm))
  refine ⟨c.names_bindings, _, hr, ?_⟩
  rw [String.toList_ofList]
  refine ⟨fun v hv => hl.value_infix_filled c hv, hl.infix_filled_iff c List.mem_cons_self,
    hmarker, ?_⟩
  simp only [Markup.findLegacy?_eq_none_iff]
  constructor
  · intro hnone v hv m hm hin
    exact hnone m hm ((hmarker m hm).2 ⟨v, hv, hin⟩)
  · intro hnone m hm hin
    obtain ⟨v, hv, hin⟩ := (hmarker m hm).1 hin
    exact hnone v hv m hm hin

/-- Values that begin or end in the midst of a delimiter or of a retired marker. -/
def splitMarkup : Context where
  currentFile := some "tool>"
  projectPath := "\x7b"
  projectStructure := some "<"
  osInfo := "\x7b\x7d\x7d"
  timestamp := ⟨0, 0⟩
  toolList := "example></"
  agentRules := none
  buildTool := "<tool name"
  shell := "=<"
  moduleInfo := some "param>\x7b"
  frameworkContext := some "\x7bshell\x7d\x7d<"

theorem render_builtin_splitMarkup :
    ∀ locale, ∃ prompt, render splitMarkup locale = .ok prompt ∧
      "=<".toList <:+: prompt.toList ∧ "param>\x7b".toList <:+: prompt.toList ∧
      ¬ Template.opener <:+: prompt.toList ∧ Markup.findLegacy? prompt.toList = none := by
  intro locale
  obtain ⟨-, prompt, hr, hvalues, hopener, -, hlegacy⟩ := render_builtin splitMarkup locale
  refine ⟨prompt, hr, hvalues _ (by decide +kernel), hvalues _ (by decide +kernel), ?_,
    hlegacy.2 (by decide +kernel)⟩
  rw [hopener]
  decide +kernel

end Prompt
end AgentPrompt
