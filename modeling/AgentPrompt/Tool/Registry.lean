import AgentPrompt.Tool.Block

/-! Tools by name in the order of their registration. A name is registered once: the first tool
that claims it keeps it. -/
namespace AgentPrompt

structure Registry where
  tools : List Tool := []
  /-- No two tools share a name. -/
  distinct : (tools.map (·.name)).Nodup := by simp

/-- The tools of a registry as they were at one moment. -/
structure Snapshot where
  tools : List Tool := []

/-- The tool of a list with a given name. -/
def Tool.named (tools : List Tool) (name : String) : Except Error Tool :=
  match tools.find? (·.name == name) with
  | some t => .ok t
  | none => .error (.toolNotFound name)

namespace Registry

def empty : Registry := {}

def names (r : Registry) : List String :=
  r.tools.map (·.name)

def size (r : Registry) : Nat :=
  r.tools.length

def isEmpty (r : Registry) : Bool :=
  r.tools.isEmpty

def contains (r : Registry) (name : String) : Bool :=
  r.tools.any (·.name == name)

theorem contains_iff (r : Registry) (name : String) : r.contains name ↔ name ∈ r.names := by
  simp [contains, names]

/-- Adds a tool after the others, unless its name is taken. -/
def register (r : Registry) (t : Tool) : Except Error Registry :=
  if h : r.contains t.name then .error (.duplicateTool t.name)
  else .ok ⟨r.tools ++ [t], by
    have hn : t.name ∉ r.tools.map (·.name) := fun m => h ((r.contains_iff t.name).2 m)
    rw [List.map_append, List.nodup_append]
    refine ⟨r.distinct, by simp, ?_⟩
    intro a ha b hb
    simp only [List.map_cons, List.map_nil, List.mem_singleton] at hb
    rintro rfl
    exact hn (hb ▸ ha)⟩

/-- Registers tools in order, from an empty registry. -/
def ofTools (tools : List Tool) : Except Error Registry :=
  tools.foldlM register empty

def get (r : Registry) (name : String) : Except Error Tool :=
  Tool.named r.tools name

def snapshot (r : Registry) : Snapshot :=
  ⟨r.tools⟩

end Registry

namespace Snapshot

def size (s : Snapshot) : Nat :=
  s.tools.length

def isEmpty (s : Snapshot) : Bool :=
  s.tools.isEmpty

def names (s : Snapshot) : List String :=
  s.tools.map (·.name)

def get (s : Snapshot) (name : String) : Except Error Tool :=
  Tool.named s.tools name

end Snapshot
end AgentPrompt
