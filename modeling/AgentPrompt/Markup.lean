import AgentPrompt.Text.Search

/-! The tag-style markup of the retired tool format, which no printed text may carry. -/
namespace AgentPrompt.Markup

def legacyMarkers : List String :=
  ["<tool name=", "<tool>", "</tool>", "<parameters>", "</parameters>", "<param name=", "<param>",
    "</param>", "<schema>", "</schema>", "<example>", "</example>", "<devin>", "</devin>"]

/-- The first marker of the list that occurs in the text. -/
def findLegacy? (s : List Char) : Option String :=
  legacyMarkers.find? fun m => Text.contains m.toList s

theorem findLegacy?_eq_none_iff (s : List Char) :
    findLegacy? s = none ↔ ∀ m ∈ legacyMarkers, ¬ m.toList <:+: s := by
  simp [findLegacy?, List.find?_eq_none, ← Text.contains_iff_infix]

end AgentPrompt.Markup
