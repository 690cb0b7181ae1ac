import RecordQuery.Order
import RecordQuery.Predicate.Evaluate

namespace RecordQuery

inductive Projection where
  | rows
  | column (name : String)
  | count
  deriving DecidableEq, Repr

def page {α : Type} (first limit : Option Nat) (items : List α) : List α :=
  match limit with
  | none => items.drop (first.getD 0)
  | some n => (items.drop (first.getD 0)).take n

structure Query where
  entity : String
  predicates : List Predicate := []
  parameters : List (String × Value) := []
  orders : List Order := []
  distinct : Bool := false
  first : Option Nat := none
  limit : Option Nat := none
  deriving Repr

namespace Query

def pageBound (n : Int64) : Option Nat := if 0 < n then some n.toInt.toNat else none

def withFirst (q : Query) (n : Int64) : Query := { q with first := pageBound n }

def withLimit (q : Query) (n : Int64) : Query := { q with limit := pageBound n }

def bindings (q : Query) : Parameters := Keyed.ofList q.parameters

def page {α : Type} (q : Query) (items : List α) : List α :=
  RecordQuery.page q.first q.limit items

end Query

end RecordQuery
