import RecordQuery.Sql.Condition
import RecordQuery.Sql.Dialect

namespace RecordQuery.Sql

inductive Piece where
  | text (text : String)
  | bind (value : Value)
  deriving DecidableEq, Repr

abbrev Statement := List Piece

namespace Statement

def writeFrom (d : Dialect) : Nat → Statement → String
  | _, [] => ""
  | n, .text s :: rest => s ++ writeFrom d n rest
  | n, .bind _ :: rest => d.placeholder n ++ writeFrom d (n + 1) rest

def write (d : Dialect) (s : Statement) : String := writeFrom d 1 s

def values : Statement → List Value
  | [] => []
  | .text _ :: rest => values rest
  | .bind v :: rest => v :: values rest

def joined (separator : String) : List Statement → Statement
  | [] => []
  | [s] => s
  | s :: rest => s ++ .text separator :: joined separator rest

def grouped (b : Bool) (s : Statement) : Statement :=
  if b then .text "(" :: s ++ [.text ")"] else s

end Statement

variable (d : Dialect)

def expr : Expr → String
  | .field name => d.quote name
  | .lower inner => "lower(" ++ expr inner ++ ")"

namespace Condition

mutual

def statement (grouped : Bool) : Condition → Statement
  | constant b => [.text (d.truth b)]
  | compare e op v => [.text (expr d e ++ " " ++ op.symbol ++ " "), .bind v]
  | compareFields left op right =>
      [.text (expr d left ++ " " ++ op.symbol ++ " " ++ expr d right)]
  | among e first rest =>
      .text (expr d e ++ " IN (") ::
        Statement.joined ", " ((first :: rest).map ([.bind ·])) ++ [.text ")"]
  | isNull e => [.text (expr d e ++ " IS NULL")]
  | isNotNull e => [.text (expr d e ++ " IS NOT NULL")]
  | like e pattern none => [.text (expr d e ++ " LIKE "), .bind (.text pattern)]
  | like e pattern (some c) =>
      [.text (expr d e ++ " LIKE "), .bind (.text pattern), .text " ESCAPE ",
        .bind (.text (String.ofList [c]))]
  | negate inner => .text "NOT (" :: statement false inner ++ [.text ")"]
  | all first rest =>
      Statement.grouped grouped
        (Statement.joined " AND " (statement true first :: statements rest))
  | any first rest =>
      Statement.grouped grouped
        (Statement.joined " OR " (statement true first :: statements rest))

def statements : List Condition → List Statement
  | [] => []
  | c :: rest => statement true c :: statements rest

end

end Condition

namespace Select

def restriction : List Condition → Statement
  | [] => []
  | [c] => .text " WHERE " :: c.statement d false
  | conditions => .text " WHERE " :: Statement.joined " AND " (Condition.statements d conditions)

def ordering : List Order → Statement
  | [] => []
  | orders =>
      .text " ORDER BY " :: Statement.joined ", "
        (orders.map fun o => [.text (expr d o.expr ++ " " ++ o.direction.symbol)])

def window (s : Select) : Statement :=
  match d.window s.limit s.first with
  | none => []
  | some clause => [.text (" " ++ clause)]

def unique (s : Select) : String := if s.distinct then "DISTINCT " else ""

def target (s : Select) : String :=
  match s.projection with
  | .rows => s.unique ++ "*"
  | .column name => s.unique ++ d.quote name
  | .count => if s.distinct then "COUNT(DISTINCT " ++ d.quote Row.idColumn ++ ")" else "COUNT(*)"

def tail (s : Select) : Statement :=
  match s.projection with
  | .count => []
  | _ => ordering d s.orders ++ window d s

def statement (s : Select) : Statement :=
  .text ("SELECT " ++ target d s ++ " FROM " ++ d.quote s.table) ::
    restriction d s.conditions ++ tail d s

end Select

def render (q : Query) (projection : Projection) : Except QueryFault Statement :=
  (Select.ofQuery q projection).map (Select.statement d)

end RecordQuery.Sql
