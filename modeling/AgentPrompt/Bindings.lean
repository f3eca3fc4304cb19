import AgentPrompt.Json.Printer

/-! Variables and the ordered table that templates are filled from. -/
namespace AgentPrompt

/-- The value of a template variable. -/
inductive Variable where
  | text (value : String)
  | list (items : List String)
  | structured (value : Json)

/-- The text put in the place of a variable: a list has commas between its items, and a structured
value is compact JSON. -/
def Variable.render : Variable → String
  | .text value => value
  | .list items => ", ".intercalate items
  | .structured value => value.print

/-- Variables by name, in the order in which their names were first inserted. -/
structure Bindings where
  entries : List (String × Variable) := []

namespace Bindings

def empty : Bindings := {}

def names (b : Bindings) : List String :=
  b.entries.map Prod.fst

def size (b : Bindings) : Nat :=
  b.entries.length

def isEmpty (b : Bindings) : Bool :=
  b.entries.isEmpty

def get? (b : Bindings) (name : String) : Option Variable :=
  b.entries.lookup name

def contains (b : Bindings) (name : String) : Bool :=
  (b.get? name).isSome

private def put (name : String) (value : Variable) : List (String × Variable) →
    List (String × Variable)
  | [] => [(name, value)]
  | e :: rest => if e.1 = name then (name, value) :: rest else e :: put name value rest

/-- Sets a variable. A name that is already there keeps its place. -/
def insert (b : Bindings) (name : String) (value : Variable) : Bindings :=
  ⟨put name value b.entries⟩

def ofList (entries : List (String × Variable)) : Bindings :=
  entries.foldl (fun b e => b.insert e.1 e.2) empty

private theorem map_fst_put (name : String) (value : Variable) (es : List (String × Variable)) :
    (put name value es).map Prod.fst =
      if name ∈ es.map Prod.fst then es.map Prod.fst else es.map Prod.fst ++ [name] := by
  induction es with
  | nil => simp [put]
  | cons e es ih =>
    by_cases h : e.1 = name
    · simp [put, h]
    · have h' : ¬ name = e.1 := fun q => h q.symm
      simp only [put, h, if_false, List.map_cons, ih, List.mem_cons, h', false_or]
      split <;> simp

theorem names_insert (b : Bindings) (name : String) (value : Variable) :
    (b.insert name value).names = if name ∈ b.names then b.names else b.names ++ [name] :=
  map_fst_put name value b.entries

private theorem lookup_put (name other : String) (value : Variable)
    (es : List (String × Variable)) :
    (put name value es).lookup other = if other = name then some value else es.lookup other := by
  induction es with
  | nil => by_cases h : other = name <;> simp [put, h]
  | cons e es ih =>
    obtain ⟨n, v⟩ := e
    by_cases h : n = name
    · subst h
      by_cases h' : other = n
      · simp [put, h']
      · simp [put, List.lookup_cons, h', beq_eq_false_iff_ne.mpr h']
    · by_cases h'' : other = n
      · subst h''
        simp [put, h]
      · simp [put, List.lookup_cons, h, ih, beq_eq_false_iff_ne.mpr h'']

theorem get?_insert (b : Bindings) (name other : String) (value : Variable) :
    (b.insert name value).get? other = if other = name then some value else b.get? other :=
  lookup_put name other value b.entries

private theorem put_of_mem (name : String) (value : Variable) {es : List (String × Variable)}
    (hd : (es.map Prod.fst).Nodup) (h : name ∈ es.map Prod.fst) :
    put name value es = es.map fun e => if e.1 = name then (name, value) else e := by
  induction es with
  | nil => cases h
  | cons e es ih =>
    obtain ⟨hnew, hd⟩ := List.nodup_cons.1 hd
    by_cases he : e.1 = name
    · have hrest : es.map (fun e => if e.1 = name then (name, value) else e) = es := by
        refine (List.map_congr_left fun f hf => ?_).trans (List.map_id es)
        exact if_neg fun hn => hnew (List.mem_map.2 ⟨f, hf, hn.trans he.symm⟩)
      rw [put, if_pos he, List.map_cons, if_pos he, hrest]
    · have hmem : name ∈ es.map Prod.fst := (List.mem_cons.1 h).resolve_left fun hn => he hn.symm
      rw [put, if_neg he, List.map_cons, if_neg he, ih hd hmem]

/-- A name that is already there gets its new value where it stands, and nothing else changes. -/
theorem entries_insert_of_mem {b : Bindings} (hd : b.names.Nodup) {name : String}
    (h : name ∈ b.names) (value : Variable) :
    (b.insert name value).entries =
      b.entries.map fun e => if e.1 = name then (name, value) else e :=
  put_of_mem name value hd h

end Bindings
end AgentPrompt
