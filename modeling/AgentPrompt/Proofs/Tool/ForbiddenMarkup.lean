import AgentPrompt.Proofs.Tool.Faults
import AgentPrompt.Proofs.Tool.LegacyMarkup

/-! Blocks are searched for a list of markers, not for the six texts that a tool list must be free
of. Five of these are markers; `<param` is kept out as far as the markers cover it. -/
namespace AgentPrompt

namespace Markup

def forbidden : List String :=
  ["<tool name=", "<parameters>", "<param", "<schema>", "<example>", "<devin>"]

/-- Wherever `m` begins in the text, a marker begins as well. -/
def Covered (m s : List Char) : Prop :=
  ∀ rest, rest <:+ s → m <+: rest → ∃ marker ∈ legacyMarkers, marker.toList <+: rest

instance (m s : List Char) : Decidable (Covered m s) :=
  decidable_of_iff (∀ rest ∈ s.tails, m <+: rest → ∃ marker ∈ legacyMarkers, marker.toList <+: rest)
    (by simp only [Covered, List.mem_tails])

theorem covered_of_mem {m : String} (h : m ∈ legacyMarkers) (s : List Char) : Covered m.toList s :=
  fun _ _ hp => ⟨m, h, hp⟩

theorem Covered.exists_marker {m s : List Char} (h : Covered m s) (hm : m <:+: s) :
    ∃ marker ∈ legacyMarkers, marker.toList <:+: s := by
  obtain ⟨rest, hp, hs⟩ := List.infix_iff_prefix_suffix.1 hm
  obtain ⟨marker, hmem, hmarker⟩ := h rest hs hp
  exact ⟨marker, hmem, hmarker.isInfix.trans hs.isInfix⟩

theorem eq_param_or_mem {m : String} (h : m ∈ forbidden) : m = "<param" ∨ m ∈ legacyMarkers := by
  have hall : ∀ m ∈ forbidden, m = "<param" ∨ m ∈ legacyMarkers := by decide
  exact hall m h

theorem lasting_of_mem_forbidden {m : String} (h : m ∈ forbidden) : Lasting m.toList := by
  rcases eq_param_or_mem h with rfl | h
  · exact ⟨by decide, 'm', by decide, by decide⟩
  · exact lasting_of_mem h

end Markup

namespace Tool
open Markup (Covered Lasting forbidden legacyMarkers)

/-- A printed list holds what the texts of its tools hold. -/
theorem infix_blockList_iff {tools : List Tool} {text : String} (h : blockList tools = .ok text)
    {m : List Char} (hm : Lasting m) :
    m <:+: text.toList ↔ ∃ t ∈ tools, ∃ s ∈ t.texts, m <:+: s.toList := by
  obtain ⟨parts, rfl, hf, htext⟩ := Audit.blockList_eq_ok h
  have hseparator : ∀ c ∈ blockSeparator.toList, c ∉ m := by
    rw [blockSeparator_toList]
    simpa using hm.newline_not_mem
  rw [htext, ← Audit.intercalate_blocks,
    Text.infix_intercalate_iff hm.ne_nil (by decide) hseparator]
  simp only [List.mem_map, exists_exists_and_eq_and]
  exact exists_congr fun p => and_congr_right fun hp => infix_blockText_iff hm (hf.resolved p hp)

theorem exists_marker_of_covered {t : Tool} {m : List Char}
    (hcovered : ∀ s ∈ t.texts, Covered m s.toList) (hm : ∃ s ∈ t.texts, m <:+: s.toList) :
    ∃ marker ∈ legacyMarkers, ∃ s ∈ t.texts, marker.toList <:+: s.toList := by
  obtain ⟨s, hs, hin⟩ := hm
  obtain ⟨marker, hmem, hmarker⟩ := (hcovered s hs).exists_marker hin
  exact ⟨marker, hmem, s, hs, hmarker⟩

/-- A text gets into the block of a tool exactly if one of the tool's texts holds it, the tool is
usable, and no text of the tool holds a marker. -/
theorem exists_block_infix_iff (t : Tool) {m : List Char} (hm : Lasting m) :
    (∃ text, t.block = .ok text ∧ m <:+: text.toList) ↔
      t.Usable ∧ (∃ s ∈ t.texts, m <:+: s.toList) ∧
        ¬ ∃ marker ∈ legacyMarkers, ∃ s ∈ t.texts, marker.toList <:+: s.toList := by
  constructor
  · rintro ⟨text, hblock, hin⟩
    obtain ⟨parameters, hr, htext, hclean⟩ := Audit.block_eq_ok hblock
    rw [htext, infix_blockText_iff hm hr] at hin
    refine ⟨usable_of_resolve hr, hin, ?_⟩
    rintro ⟨marker, hmem, hmarker⟩
    exact hclean marker hmem ((infix_blockText_iff (Markup.lasting_of_mem hmem) hr).2 hmarker)
  · rintro ⟨husable, hin, hnone⟩
    obtain ⟨parameters, hr⟩ := exists_resolve husable
    have hcarried : t.carriedMarkers = [] := by
      rw [List.eq_nil_iff_forall_not_mem]
      exact fun marker hmem => hnone ⟨marker, mem_carriedMarkers_iff.1 hmem⟩
    have hblock := block_of_resolve hr
    rw [hcarried] at hblock
    exact ⟨_, hblock, by rwa [String.toList_ofList, infix_blockText_iff hm hr]⟩

/-- A tool one of whose texts holds a marker spoils every list that it is in. -/
theorem refused_of_marker {t : Tool}
    (h : ∃ marker ∈ legacyMarkers, ∃ s ∈ t.texts, marker.toList <:+: s.toList) :
    (∃ reason, t.block = .error (.invalidTool t.name reason)) ∧
      ∀ tools, t ∈ tools → ∃ name reason, blockList tools = .error (.invalidTool name reason) := by
  obtain ⟨marker, hmem, hmarker⟩ := h
  have hin : ∀ parameters, t.resolve = .ok parameters → marker.toList <:+: t.blockText parameters :=
    fun _ hr => (infix_blockText_iff (Markup.lasting_of_mem hmem) hr).2 hmarker
  constructor
  · cases hblock : t.block with
    | ok text =>
      obtain ⟨parameters, hr, -, hclean⟩ := Audit.block_eq_ok hblock
      exact absurd (hin parameters hr) (hclean marker hmem)
    | error e =>
      obtain ⟨reason, rfl⟩ := block_eq_error hblock
      exact ⟨reason, rfl⟩
  · intro tools ht
    cases hlist : blockList tools with
    | ok text =>
      obtain ⟨parts, rfl, hf, -⟩ := Audit.blockList_eq_ok hlist
      obtain ⟨p, hp, rfl⟩ := List.mem_map.1 ht
      exact absurd (hin p.2 (hf.resolved p hp)) (hf.clean p hp marker hmem)
    | error e =>
      obtain ⟨-, u, -, -, -, hu⟩ := first_error_of_blockList hlist
      obtain ⟨reason, rfl⟩ := block_eq_error hu
      exact ⟨u.name, reason, rfl⟩

/-- A printed list holds a forbidden text exactly if a text of one of its tools does, and there is
none of which the markers cover every place in the texts of the tools. A tool with a forbidden text
that the markers cover is refused, and the list with it. Five of the forbidden texts are covered
everywhere; the sixth gets into the block of a usable tool exactly if it stands in a text of the tool
and no marker does. -/
theorem forbidden_kept_out_where_covered (tools : List Tool) :
    (∀ text, blockList tools = .ok text → ∀ m ∈ forbidden,
      (m.toList <:+: text.toList ↔ ∃ t ∈ tools, ∃ s ∈ t.texts, m.toList <:+: s.toList) ∧
      ((∀ t ∈ tools, ∀ s ∈ t.texts, Covered m.toList s.toList) → ¬ m.toList <:+: text.toList)) ∧
    (∀ t ∈ tools, ∀ m ∈ forbidden, (∃ s ∈ t.texts, m.toList <:+: s.toList) →
      (∀ s ∈ t.texts, Covered m.toList s.toList) →
        (∃ reason, t.block = .error (.invalidTool t.name reason)) ∧
          ∃ name reason, blockList tools = .error (.invalidTool name reason)) ∧
    (∀ m ∈ forbidden, m ≠ "<param" → ∀ s, Covered m.toList s) ∧
    ∀ t ∈ tools, (∃ text, t.block = .ok text ∧ "<param".toList <:+: text.toList) ↔
      t.Usable ∧ (∃ s ∈ t.texts, "<param".toList <:+: s.toList) ∧
        ¬ ∃ marker ∈ legacyMarkers, ∃ s ∈ t.texts, marker.toList <:+: s.toList := by
  refine ⟨fun text h m hm => ?_, fun t ht m hm hin hcovered => ?_, fun m hm hne s => ?_,
    fun t _ => ?_⟩
  · have hiff := infix_blockList_iff h (Markup.lasting_of_mem_forbidden hm)
    refine ⟨hiff, fun hcovered hin => ?_⟩
    obtain ⟨t, ht, hin⟩ := hiff.1 hin
    have hmarker := exists_marker_of_covered (hcovered t ht) hin
    obtain ⟨-, hrefused⟩ := refused_of_marker hmarker
    obtain ⟨name, reason, hlist⟩ := hrefused tools ht
    rw [h] at hlist
    cases hlist
  · obtain ⟨htool, hlist⟩ := refused_of_marker (exists_marker_of_covered hcovered hin)
    exact ⟨htool, hlist tools ht⟩
  · exact Markup.covered_of_mem ((Markup.eq_param_or_mem hm).resolve_left hne) s
  · exact exists_block_infix_iff t (Markup.lasting_of_mem_forbidden (by decide))

/-- Forbidden texts but for a blank inside each. -/
def brokenTags : Tool where
  name := "<tool"
  description := "name= <para m> <schema >"
  examples := ["<example\n>"]

/-- A forbidden text inside the value of a default, where a marker begins. -/
def taggedDefault : Tool where
  name := "a"
  parameters := [{ name := "p", type := "object", default := some "\x7b\"\\u003cparam name=\":[1]\x7d" }]

theorem forbidden_kept_out_where_covered_broken :
    (∃ text, blockList [brokenTags] = .ok text ∧ ∀ m ∈ forbidden, ¬ m.toList <:+: text.toList) ∧
      ∃ reason, taggedDefault.block = .error (.invalidTool "a" reason) := by
  obtain ⟨hlist, -⟩ := forbidden_kept_out_where_covered [brokenTags]
  obtain ⟨-, hrefused, -⟩ := forbidden_kept_out_where_covered [taggedDefault]
  obtain ⟨text, htext⟩ :=
    Except.exists_eq_ok_of_isOk (x := blockList [brokenTags]) (by decide +kernel)
  refine ⟨⟨text, htext, fun m hm => (hlist text htext m hm).2 ?_⟩, ?_⟩
  · have hall : ∀ m ∈ forbidden, ∀ t ∈ [brokenTags], ∀ s ∈ t.texts, Covered m.toList s.toList := by
      decide +kernel
    exact hall m hm
  · exact (hrefused taggedDefault List.mem_cons_self "<param" (by decide) (by decide +kernel)
      (by decide +kernel)).1

/-- A tag that no marker covers. -/
def attributedTag : Tool where
  name := "a"
  description := "<param type=\"string\">"

theorem not_forall_forbidden_kept_out :
    ¬ ∀ tools text, blockList tools = .ok text → ∀ m ∈ forbidden, ¬ m.toList <:+: text.toList := by
  intro hall
  obtain ⟨text, htext⟩ :=
    Except.exists_eq_ok_of_isOk (x := blockList [attributedTag]) (by decide +kernel)
  have hlasting := Markup.lasting_of_mem_forbidden (m := "<param") (by decide)
  have hin : "<param".toList <:+: text.toList :=
    (infix_blockList_iff htext hlasting).2 (by decide +kernel)
  exact hall _ text htext "<param" (by decide) hin

end Tool
end AgentPrompt
