import RecordQuery.Query

namespace RecordQuery.Sql

/-- A condition of a statement. Its values are known, its lists of values are not empty and its
junctions have items. -/
inductive Condition where
  | constant (value : Bool)
  | compare (expr : Expr) (op : CompareOp) (value : Value)
  | compareFields (left : Expr) (op : CompareOp) (right : Expr)
  | among (expr : Expr) (first : Value) (rest : List Value)
  | isNull (expr : Expr)
  | isNotNull (expr : Expr)
  | like (expr : Expr) (pattern : String) (escape : Option Char)
  | negate (inner : Condition)
  | all (first : Condition) (rest : List Condition)
  | any (first : Condition) (rest : List Condition)
  deriving Repr

namespace Condition

instance : Inhabited Condition := ⟨constant true⟩

def allOf : List Condition → Condition
  | [] => constant true
  | c :: rest => all c rest

def anyOf : List Condition → Condition
  | [] => constant false
  | c :: rest => any c rest

def amongOf (expr : Expr) : List Value → Condition
  | [] => constant false
  | v :: rest => among expr v rest

variable (params : Parameters)

mutual

def ofPredicate : Predicate → Except QueryFault Condition
  | .literal b => .ok (constant b)
  | .compare e op operand => (operand.value? params).map (compare e op)
  | .compareFields left op right => .ok (compareFields left op right)
  | .among e values => .ok (amongOf e values)
  | .isNull e => .ok (isNull e)
  | .isNotNull e => .ok (isNotNull e)
  | .like e pattern escape => .ok (like e pattern escape)
  | .negate inner => (ofPredicate inner).map negate
  | .all items => (ofPredicates items).map allOf
  | .any items => (ofPredicates items).map anyOf

def ofPredicates : List Predicate → Except QueryFault (List Condition)
  | [] => .ok []
  | p :: rest =>
      match ofPredicate p with
      | .error fault => .error fault
      | .ok c => (ofPredicates rest).map (c :: ·)

end

def isNever : Condition → Bool
  | constant b => !b
  | _ => false

def conjunction (first : Condition) (rest : List Condition) : Condition :=
  if rest.isEmpty then first
  else if (first :: rest).any isNever then constant false
  else all first rest

def disjunction (first : Condition) (rest : List Condition) : Condition :=
  if rest.isEmpty then first else any first rest

mutual

def reduced : Condition → Condition
  | negate inner => negate (reduced inner)
  | all first rest => conjunction (reduced first) (reducedAll rest)
  | any first rest => disjunction (reduced first) (reducedAll rest)
  | c => c

def reducedAll : List Condition → List Condition
  | [] => []
  | c :: rest => reduced c :: reducedAll rest

end

end Condition

structure Select where
  table : String
  projection : Projection
  distinct : Bool
  conditions : List Condition
  orders : List Order
  first : Option Nat
  limit : Option Nat

def Select.ofQuery (q : Query) (projection : Projection) : Except QueryFault Select :=
  (Condition.ofPredicates q.bindings q.predicates).map fun conditions =>
    ⟨q.entity, projection, q.distinct, conditions, q.orders, q.first, q.limit⟩

end RecordQuery.Sql
