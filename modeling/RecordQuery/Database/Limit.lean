import RecordQuery.Sql.Statement
import RecordQuery.Store.Error

namespace RecordQuery.Database

open RecordQuery.Sql

abbrev Checked := Except DatabaseFault

def stackLimit : Nat := 99

def heightLimit : Nat := 1000

def valueLimit : Nat := 32766

def checkStack (top : Nat) : Checked Unit :=
  if stackLimit < top then .error .nestedTooDeep else .ok ()

def checkHeight (height : Nat) : Checked Nat :=
  if heightLimit < height then .error .treeTooHigh else .ok height

def checkName (name : String) : Checked Unit :=
  if name.toList.contains '\x00' then
    let start := String.ofList (name.toList.takeWhile (· != '\x00'))
    .error (.brokenToken (String.ofList ((quoted start).toList.dropLast)))
  else .ok ()

def exprHeight (base : Nat) : Expr → Checked Nat
  | .field name => do
      checkStack (base + 1)
      checkName name
      return 1
  | .lower inner => do
      let height ← exprHeight (base + 3) inner
      checkStack (base + 5)
      checkHeight (height + 1)

abbrev Shape := Nat × Bool

def above (heights : List Nat) : Checked Shape :=
  (checkHeight (heights.foldl max 0 + 1)).map (·, false)

def joined (isAll : Bool) (a b : Shape) : Checked Shape :=
  if isAll && (a.2 || b.2) then .ok (1, true) else above [a.1, b.1]

mutual

def shape (inside : Bool) (base : Nat) : Condition → Checked Shape
  | .constant b => do
      checkStack (base + 1)
      return (1, !b)
  | .compare e _ _ => do
      let height ← exprHeight base e
      checkStack (base + 3)
      above [height, 1]
  | .compareFields left _ right => do
      let height ← exprHeight base left
      let other ← exprHeight (base + 2) right
      above [height, other]
  | .among e _ rest => do
      let height ← exprHeight base e
      checkStack (base + if rest.isEmpty then 5 else 6)
      above [height, if rest.isEmpty then 2 else 1]
  | .isNull e => do
      let height ← exprHeight base e
      checkStack (base + 3)
      above [height]
  | .isNotNull e => do
      let height ← exprHeight base e
      checkStack (base + 4)
      above [height]
  | .like e _ escape => do
      let height ← exprHeight base e
      checkStack (base + if escape.isSome then 5 else 3)
      above [height, 1]
  | .negate inner => do
      let (height, _) ← shape false (base + 2) inner
      checkStack (base + 4)
      above [height]
  | .all first rest => do
      let base := if inside then base + 1 else base
      let s ← chain true (base + 2) (← shape true base first) rest
      if inside then checkStack (base + 2)
      return s
  | .any first rest => do
      let base := if inside then base + 1 else base
      let s ← chain false (base + 2) (← shape true base first) rest
      if inside then checkStack (base + 2)
      return s

def chain (isAll : Bool) (base : Nat) (sofar : Shape) : List Condition → Checked Shape
  | [] => .ok sofar
  | c :: rest => do chain isAll base (← joined isAll sofar (← shape true base c)) rest

end

def checkConditions : List Condition → Checked Unit
  | [] => .ok ()
  | [c] => (shape false 5 c).map fun _ => ()
  | c :: rest => do
      let first ← shape true 5 c
      (chain true 7 first rest).map fun _ => ()

def checkOrders : List Order → Checked Unit
  | [] => .ok ()
  | o :: rest => do
      let _ ← exprHeight 9 o.expr
      rest.forM fun o => (exprHeight 11 o.expr).map fun _ => ()

def checkTarget : Projection → Checked Unit
  | .column name => checkName name
  | _ => .ok ()

def checkSelect (s : Select) : Checked Unit := do
  checkTarget s.projection
  checkName s.table
  checkConditions s.conditions
  if s.projection = .count then pure () else checkOrders s.orders
  if valueLimit < (Select.restriction embedded s.conditions).values.length then
    throw .tooManyValues

end RecordQuery.Database
