import RecordQuery.Database.Access
import RecordQuery.Sql.Dialect

namespace RecordQuery.Database

open RecordQuery.Sql

variable (l : Layout)

def targets (s : Select) : List String :=
  match s.projection with
  | .rows => l.names
  | .column name => [name]
  | .count => [Row.idColumn]

def isCovering (s : Select) (path : Path) : Bool :=
  isCovered l path (targets l s ++ namesInAll s.conditions ++ s.orders.map (·.expr.column))

def wanted (s : Select) : List Order :=
  if s.projection = .count then []
  else if !s.orders.isEmpty then s.orders
  else if s.distinct && !(targets l s).any (fun name => l.place? name == some .number) then
    (targets l s).map fun name => ⟨.field name, .asc⟩
  else []

def isFixed (s : Select) (p : Place) : Bool :=
  (conjunctsOf s.conditions).any fun c =>
    match c with
    | .isNull e => placeOf? l e = some p
    | c => equalPlace? l c = some p

def sorted (s : Select) (direction : Option Direction) : List Place → List Order → Nat
  | _, [] => 0
  | [], o :: rest =>
      if (placeOf? l o.expr).any (isFixed l s) then sorted s direction [] rest + 1 else 0
  | p :: places, o :: rest =>
      if (placeOf? l o.expr).any (isFixed l s) then sorted s direction (p :: places) rest + 1
      else if placeOf? l o.expr != some p || direction.any (· != o.direction) then 0
      else if p = .number then rest.length + 1
      else sorted s (some o.direction) places rest + 1

def sortedBy (s : Select) (orders : List Order) (p : Plan) : Nat :=
  match p.stretches with
  | [stretch] => sorted l s none (stretch.path :: [.number]) orders
  | _ => 0

def sortCost (s : Select) (rows : Cost) (terms known : Nat) : Cost :=
  let part := if known = 0 then 0 else Cost.ofCount ((terms - known) * 100 / terms) - 66
  match s.limit with
  | some n => rows + 10 + part + 10 + (if known = 0 then 0 else 6) +
      (min (Cost.ofCount n) rows).search
  | none => rows + 10 + part + (if s.distinct && 10 < rows then rows - 10 else rows).search

def finalCost (s : Select) (rows : Cost) (p : Plan) : Cost :=
  let orders := wanted l s
  let known := sortedBy l s orders p
  if orders.length ≤ known then p.cost
  else p.cost.add (sortCost s rows orders.length known) + 3

def lookups (s : Select) (path : Path) : Cost :=
  ((conjunctsOf s.conditions).takeWhile (isCovered l path <| namesIn ·)).foldl
    (fun cost c => cost - if (equalPlace? l c).isSome then 20 else 1) (onTable tableRows)

def wholeCost (s : Select) : Path → Cost
  | .number => onTable tableRows
  | .column c =>
      let cost := onPath tableRows
      if isCovering l s (.column c) then cost else cost.add (lookups l s (.column c))

def wholeWays (s : Select) : List Way :=
  l.paths.map fun p => { path := p, cost := wholeCost l s p, rows := tableRows, terms := 0 }

def planFor (s : Select) : Option Plan :=
  let s := { s with conditions := Condition.reducedAll s.conditions }
  let covering := isCovering l s
  let plans := (wholeWays l s).map (accessAll l covering s.conditions).plan ++
    searches l covering s.conditions
  (Plan.cheapest plans).bind fun best =>
    Plan.least (fun p => [finalCost l s (best.rows + 1) p, p.rows, p.cost]) plans

def isBackward (s : Select) (path : Path) : Bool :=
  match s.orders with
  | o :: _ => placeOf? l o.expr = some path && o.direction = .desc
  | [] => false

end RecordQuery.Database
