import RecordQuery.Predicate

namespace RecordQuery

inductive Direction where
  | asc
  | desc
  deriving DecidableEq, Repr

structure Order where
  expr : Expr
  direction : Direction
  deriving DecidableEq, Repr

namespace Direction

def symbol : Direction → String
  | asc => "ASC"
  | desc => "DESC"

def orient : Direction → Ordering → Ordering
  | asc, o => o
  | desc, o => o.swap

end Direction

namespace Order

def display (o : Order) : String := o.expr.display ++ " " ++ o.direction.symbol

def compareBy (compare : Expr → Ordering) : List Order → Ordering
  | [] => .eq
  | o :: rest => (o.direction.orient (compare o.expr)).then (compareBy compare rest)

end Order

end RecordQuery
