import RecordQuery.Row

namespace RecordQuery

open RecordQuery.Text

inductive Expr where
  | field (name : String)
  | lower (inner : Expr)
  deriving DecidableEq, Repr

namespace Expr

def column : Expr → String
  | field name => name
  | lower inner => inner.column

def display : Expr → String
  | field name => name
  | lower inner => "lower(" ++ inner.display ++ ")"

end Expr

inductive Operand where
  | value (value : Value)
  | param (name : String)
  deriving DecidableEq, Repr

def Operand.display : Operand → String
  | value v => v.display
  | param name => ":" ++ name

inductive CompareOp where
  | eq
  | ne
  | gt
  | ge
  | lt
  | le
  deriving DecidableEq, Repr

namespace CompareOp

def all : List CompareOp := [eq, ne, gt, ge, lt, le]

def symbol : CompareOp → String
  | eq => "="
  | ne => "<>"
  | gt => ">"
  | ge => ">="
  | lt => "<"
  | le => "<="

def holds : CompareOp → Ordering → Bool
  | eq, o => o == .eq
  | ne, o => o != .eq
  | gt, o => o == .gt
  | ge, o => o != .lt
  | lt, o => o == .lt
  | le, o => o != .gt

end CompareOp

inductive Predicate where
  | literal (value : Bool)
  | compare (expr : Expr) (op : CompareOp) (operand : Operand)
  | compareFields (left : Expr) (op : CompareOp) (right : Expr)
  | among (expr : Expr) (values : List Value)
  | isNull (expr : Expr)
  | isNotNull (expr : Expr)
  | like (expr : Expr) (pattern : String) (escape : Option Char)
  | negate (inner : Predicate)
  | all (items : List Predicate)
  | any (items : List Predicate)
  deriving Repr

namespace Predicate

instance : Inhabited Predicate := ⟨literal true⟩

def equal (expr : Expr) (value : Value) : Predicate := compare expr .eq (.value value)

def allOf : List Predicate → Predicate
  | [] => literal true
  | [p] => p
  | items => all items

def anyOf : List Predicate → Predicate
  | [] => literal false
  | [p] => p
  | items => any items

def displayList (values : List Value) : String :=
  ", ".intercalate (values.map Value.display)

mutual

def display : Predicate → String
  | literal true => "TRUE"
  | literal false => "FALSE"
  | compare expr op operand => s!"{expr.display} {op.symbol} {operand.display}"
  | compareFields left op right => s!"{left.display} {op.symbol} {right.display}"
  | among expr values => s!"{expr.display} IN ({displayList values})"
  | isNull expr => s!"{expr.display} IS NULL"
  | isNotNull expr => s!"{expr.display} IS NOT NULL"
  | like expr pattern none => s!"{expr.display} LIKE '{pattern}'"
  | like expr pattern (some c) => s!"{expr.display} LIKE '{pattern}' ESCAPE '{c}'"
  | negate inner => "NOT (" ++ inner.display ++ ")"
  | all items => "(" ++ " AND ".intercalate (displayAll items) ++ ")"
  | any items => "(" ++ " OR ".intercalate (displayAll items) ++ ")"

def displayAll : List Predicate → List String
  | [] => []
  | p :: rest => p.display :: displayAll rest

end

mutual

def parameterNames : Predicate → List String
  | compare _ _ (.param name) => [name]
  | negate inner => inner.parameterNames
  | all items => parameterNamesAll items
  | any items => parameterNamesAll items
  | _ => []

def parameterNamesAll : List Predicate → List String
  | [] => []
  | p :: rest => p.parameterNames ++ parameterNamesAll rest

end

end Predicate

end RecordQuery
