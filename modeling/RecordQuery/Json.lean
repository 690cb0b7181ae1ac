namespace RecordQuery

/-- A document. No field takes a number that is not an integer, so of such a number only that it is
one is kept. A part that is well formed but stands for no value, such as the escape of half a
character, is unreadable. -/
inductive Json where
  | null
  | bool (value : Bool)
  | int (value : Int)
  | otherNumber
  | text (value : String)
  | list (items : List Json)
  | object (members : List (String × Json))
  | unreadable
  deriving Repr

namespace Json

instance : Inhabited Json := ⟨null⟩

mutual

def depth : Json → Nat
  | list items => depthAll items + 1
  | object members => depthMembers members + 1
  | _ => 0

def depthAll : List Json → Nat
  | [] => 0
  | j :: rest => max j.depth (depthAll rest)

def depthMembers : List (String × Json) → Nat
  | [] => 0
  | (_, j) :: rest => max j.depth (depthMembers rest)

end

mutual

def isComplete : Json → Bool
  | unreadable => false
  | list items => isCompleteAll items
  | object members => isCompleteMembers members
  | _ => true

def isCompleteAll : List Json → Bool
  | [] => true
  | j :: rest => j.isComplete && isCompleteAll rest

def isCompleteMembers : List (String × Json) → Bool
  | [] => true
  | (_, j) :: rest => j.isComplete && isCompleteMembers rest

end

end Json

end RecordQuery
