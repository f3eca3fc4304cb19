import AgentPrompt.Prompt.Context
import AgentPrompt.Proofs.Template.Layout

namespace AgentPrompt

namespace Bindings

theorem contains_insert_iff (b : Bindings) (name other : String) (value : Variable) :
    (b.insert name value).contains other = true ↔ b.contains other = true ∨ other = name := by
  rw [contains, contains, get?_insert]
  split
  · rename_i h
    simp [h]
  · rename_i h
    simp [h]

theorem contains_foldl_insert_iff (b : Bindings) (entries : List (String × Variable))
    (name : String) :
    (entries.foldl (fun b e => b.insert e.1 e.2) b).contains name = true ↔
      b.contains name = true ∨ name ∈ entries.map Prod.fst := by
  induction entries generalizing b with
  | nil => simp
  | cons e entries ih =>
    rw [List.foldl_cons, ih, contains_insert_iff, List.map_cons, List.mem_cons, or_assoc]

theorem contains_ofList_iff (entries : List (String × Variable)) (name : String) :
    (ofList entries).contains name = true ↔ name ∈ entries.map Prod.fst := by
  rw [ofList, contains_foldl_insert_iff]
  constructor
  · rintro (h | h)
    · cases h
    · exact h
  · exact Or.inr

theorem get?_of_mem {b : Bindings} (h : b.names.Nodup) {e : String × Variable}
    (he : e ∈ b.entries) : b.get? e.1 = some e.2 := by
  obtain ⟨before, after, hsplit⟩ := List.append_of_mem he
  rw [names, hsplit, List.map_append, List.map_cons, List.nodup_append] at h
  obtain ⟨-, -, hdisjoint⟩ := h
  have hnone : before.lookup e.1 = none := by
    rw [List.lookup_eq_none_iff]
    intro p hp
    rw [bne_iff_ne]
    exact (hdisjoint p.1 (List.mem_map_of_mem hp) e.1 List.mem_cons_self).symm
  rw [get?, hsplit, List.lookup_append, hnone, List.lookup_cons_self]
  rfl

end Bindings

namespace Context

/-- Every context defines the same names. -/
theorem contains_bindings (c : Context) :
    c.bindings.contains = fun n => decide (n ∈ variableNames) := by
  funext n
  rw [Bool.eq_iff_iff, decide_eq_true_iff]
  exact Bindings.contains_ofList_iff _ n

theorem names_bindings (c : Context) : c.bindings.names = variableNames :=
  rfl

theorem get?_tool_list (c : Context) : c.bindings.get? "tool_list" = some (.text c.toolList) :=
  rfl

theorem rendered_of_mem (c : Context) {e : String × Variable} (he : e ∈ c.bindings.entries) :
    Template.rendered c.bindings e.1 = e.2.render.toList := by
  have hnodup : c.bindings.names.Nodup := by
    rw [names_bindings]
    decide
  rw [Template.rendered, Bindings.get?_of_mem hnodup he]
  rfl

end Context
end AgentPrompt
