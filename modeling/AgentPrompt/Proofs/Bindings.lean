import AgentPrompt.Template.Compile
import Mathlib.Data.Finset.Card
import Mathlib.Data.List.Induction

namespace AgentPrompt

namespace Bindings

def lastValue? (entries : List (String × Variable)) (name : String) : Option Variable :=
  entries.reverse.lookup name

theorem ofList_concat (entries : List (String × Variable)) (e : String × Variable) :
    ofList (entries ++ [e]) = (ofList entries).insert e.1 e.2 := by
  rw [ofList, List.foldl_append]
  rfl

theorem names_nodup_insert {b : Bindings} (h : b.names.Nodup) (name : String) (value : Variable) :
    (b.insert name value).names.Nodup := by
  rw [names_insert]
  split
  · exact h
  · rename_i hnew
    simpa [List.nodup_append] using ⟨h, fun n hn he => hnew (he ▸ hn)⟩

theorem names_nodup_ofList (entries : List (String × Variable)) :
    (ofList entries).names.Nodup := by
  induction entries using List.reverseRecOn with
  | nil => exact List.nodup_nil
  | append_singleton entries e ih =>
    rw [ofList_concat]
    exact names_nodup_insert ih e.1 e.2

/-- Names stand in the order of their first insertions. -/
theorem names_ofList (entries : List (String × Variable)) :
    (ofList entries).names = (entries.map Prod.fst).eraseDups := by
  induction entries using List.reverseRecOn with
  | nil => rfl
  | append_singleton entries e ih =>
    rw [ofList_concat, names_insert, ih, List.map_append, List.eraseDups_append]
    by_cases h : e.1 ∈ entries.map Prod.fst
    · simp [List.removeAll, List.mem_eraseDups.2 h, h]
    · simp [List.removeAll, mt List.mem_eraseDups.1 h, h, List.eraseDups_cons]

theorem get?_ofList (entries : List (String × Variable)) (name : String) :
    (ofList entries).get? name = lastValue? entries name := by
  induction entries using List.reverseRecOn with
  | nil => rfl
  | append_singleton entries e ih =>
    rw [ofList_concat, get?_insert, ih, lastValue?, lastValue?, List.reverse_append,
      List.reverse_singleton, List.singleton_append, List.lookup_cons]
    by_cases h : name = e.1
    · simp [h]
    · simp [h, beq_eq_false_iff_ne.2 h]

theorem lastValue?_eq_none_iff (entries : List (String × Variable)) (name : String) :
    lastValue? entries name = none ↔ name ∉ entries.map Prod.fst := by
  simp only [lastValue?, List.lookup_eq_none_iff, List.mem_reverse, bne_iff_ne, List.mem_map,
    not_exists, not_and]
  exact forall_congr' fun e => forall_congr' fun _ => ne_comm

/-- There are as many entries as there are different names. -/
theorem size_ofList (entries : List (String × Variable)) :
    (ofList entries).size = (entries.map Prod.fst).toFinset.card := by
  have hnames : (ofList entries).names.toFinset = (entries.map Prod.fst).toFinset := by
    ext name
    rw [names_ofList, List.mem_toFinset, List.mem_toFinset, List.mem_eraseDups]
  rw [← hnames, List.toFinset_card_of_nodup (names_nodup_ofList entries), names, List.length_map,
    size]

end Bindings

namespace Template

variable {b b' : Bindings}

theorem fill_congr (h : ∀ name, b.get? name = b'.get? name) (ps : List Piece) :
    fill b ps = fill b' ps := by
  induction ps with
  | nil => rfl
  | cons piece ps ih =>
    cases piece with
    | literal text => rw [fill, fill, ih]
    | placeholder name position source => rw [fill, fill, ih, h]

/-- Tables that agree on every name compile every template alike. -/
theorem compile_congr (h : ∀ name, b.get? name = b'.get? name) (template : String) :
    compile template b = compile template b' := by
  unfold compile
  simp only [fill_congr h]

end Template

namespace Bindings

/-- A table is an ordered map. After any insertions its names are the different ones among those that
were inserted, in the order of their first insertions, and each has the value that was inserted last
under it. Inserting a name again changes its value where it stands and nothing else. So insertions that
leave the same last values make the same text, or the same error, of every template. -/
theorem ofList_ordered_map :
    (∀ entries : List (String × Variable),
      (ofList entries).names = (entries.map Prod.fst).eraseDups ∧
      (∀ name, (ofList entries).get? name = lastValue? entries name) ∧
      (∀ name, (ofList entries).get? name = none ↔ name ∉ entries.map Prod.fst) ∧
      (ofList entries).size = (entries.map Prod.fst).toFinset.card ∧
      ∀ name value, name ∈ entries.map Prod.fst →
        ((ofList entries).insert name value).entries =
          (ofList entries).entries.map fun e => if e.1 = name then (name, value) else e) ∧
    ∀ entries entries' : List (String × Variable),
      (∀ name, lastValue? entries name = lastValue? entries' name) →
        ∀ template, Template.compile template (ofList entries) =
          Template.compile template (ofList entries') := by
  refine ⟨fun entries => ⟨names_ofList entries, get?_ofList entries, fun name => ?_,
    size_ofList entries, fun name value h => ?_⟩, fun entries entries' h template => ?_⟩
  · rw [get?_ofList, lastValue?_eq_none_iff]
  · refine entries_insert_of_mem (names_nodup_ofList entries) ?_ value
    rwa [names_ofList, List.mem_eraseDups]
  · refine Template.compile_congr (fun name => ?_) template
    rw [get?_ofList, get?_ofList, h]

/-- Insertions that repeat a name before and after another. -/
def repeatedEntries : List (String × Variable) :=
  [("b", .text "1"), ("a", .list ["2"]), ("b", .text "3")]

theorem ofList_ordered_map_repeated :
    (ofList repeatedEntries).names = ["b", "a"] ∧
      (ofList repeatedEntries).get? "b" = some (.text "3") ∧
      ((ofList repeatedEntries).insert "b" (.text "4")).entries =
        [("b", .text "4"), ("a", .list ["2"])] ∧
      ∀ template, Template.compile template (ofList repeatedEntries) =
        Template.compile template (ofList [("a", .list ["2"]), ("b", .text "3")]) := by
  obtain ⟨hruns, hsame⟩ := ofList_ordered_map
  obtain ⟨hnames, hget, -, -, hinsert⟩ := hruns repeatedEntries
  refine ⟨hnames, hget "b", hinsert "b" (.text "4") (by decide), hsame _ _ fun name => ?_⟩
  simp only [repeatedEntries, lastValue?, List.reverse_cons, List.reverse_nil, List.nil_append,
    List.cons_append, List.lookup_cons, List.lookup_nil]
  cases name == "b" <;> rfl

end Bindings
end AgentPrompt
