import AgentPrompt.Number.Binary64

/-! JSON values. An object keeps its members in a list: the reader sorts them by key, and whoever
builds an object for printing chooses the order in which it is printed. -/
namespace AgentPrompt

/-- Whole numbers of 64 bits, signed or unsigned, are kept apart from floating-point numbers. -/
inductive Json.Number where
  | int (value : Int)
  | float (value : Binary64)
  deriving DecidableEq, Repr

inductive Json where
  | null
  | bool (value : Bool)
  | number (value : Json.Number)
  | string (value : String)
  | array (items : List Json)
  | object (members : List (String × Json))
  deriving Repr

namespace Json

instance : Inhabited Json := ⟨null⟩

/-- The smallest and the largest whole number that is not read as a floating-point number. -/
def minInt : Int := -(Nat.pow 2 63 : Nat)

def maxInt : Int := (Nat.pow 2 64 - 1 : Nat)

def ofNat (n : Nat) : Json :=
  number (.int n)

def ofStrings (items : List String) : Json :=
  array (items.map string)

/-- The value of the last member with this key, or null when there is none or the value is no
object. -/
def field (key : String) : Json → Json
  | object members => ((members.reverse.find? fun m => m.1 == key).map Prod.snd).getD null
  | _ => null

def asString? : Json → Option String
  | string s => some s
  | _ => none

def asArray? : Json → Option (List Json)
  | array items => some items
  | _ => none

/-- Adds a member to a list that is strictly sorted by key. An old value of the key gives way. -/
def insertMember (key : String) (value : Json) : List (String × Json) → List (String × Json)
  | [] => [(key, value)]
  | m :: rest =>
    if key < m.1 then (key, value) :: m :: rest
    else if key = m.1 then (key, value) :: rest
    else m :: insertMember key value rest

end Json
end AgentPrompt
