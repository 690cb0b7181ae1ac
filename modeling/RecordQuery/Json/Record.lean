import RecordQuery.Json

namespace RecordQuery.Json

abbrev Members := List (String × Json)

def asInt64 : Json → Option Int64
  | int n => if Int64.minValue.toInt ≤ n ∧ n ≤ Int64.maxValue.toInt then some (.ofInt n) else none
  | _ => none

def asNat64 : Json → Option Nat
  | int n => if 0 ≤ n ∧ n ≤ 18446744073709551615 then some n.toNat else none
  | _ => none

def asBool : Json → Option Bool
  | bool b => some b
  | _ => none

def asText : Json → Option String
  | text s => some s
  | _ => none

def asList {α : Type} (f : Json → Option α) : Json → Option (List α)
  | list items => items.mapM f
  | _ => none

def uniqueNames (names : List String) (members : Members) : Bool :=
  names.all fun name => (members.filter (·.1 == name)).length ≤ 1

def objectMembers? (names : List String) : Json → Option Members
  | object members => if uniqueNames names members then some members else none
  | _ => none

def members? (names : List String) : Json → Option Members
  | list items => if items.length ≤ names.length then some (names.zip items) else none
  | j => objectMembers? names j

def isPlain (j : Json) : Bool := j.depth ≤ 127 && j.isComplete

namespace Members

def required {α : Type} (members : Members) (name : String) (f : Json → Option α) : Option α :=
  (members.lookup name).bind f

def withDefault {α : Type} (members : Members) (name : String) (default : α)
    (f : Json → Option α) : Option α :=
  match members.lookup name with
  | none => some default
  | some j => f j

def optional {α : Type} (members : Members) (name : String) (f : Json → Option α) :
    Option (Option α) :=
  match members.lookup name with
  | none => some none
  | some null => some none
  | some j => (f j).map some

end Members

end RecordQuery.Json
