import RecordQuery.Database.Condition
import RecordQuery.Database.Cost

namespace RecordQuery.Database

open RecordQuery.Sql

abbrev Path := Place

namespace Layout

def paths (l : Layout) : List Path := .number :: (l.columns.filter (·.unique)).map .column

end Layout

structure Stretch where
  path : Path
  conditions : List Condition

structure Plan where
  cost : Cost
  rows : Cost
  stretches : List Stretch

structure Way where
  path : Path
  cost : Cost
  rows : Cost
  terms : Nat := 1
  equations : Nat := 0

structure Access where
  points : List Way := []
  lower : List Path := []
  upper : List Path := []
  terms : Nat := 0
  equations : Nat := 0

def tableRows : Cost := 200

def halfLine : Cost := 180

def segment : Cost := 140

def onTable (rows : Cost) : Cost := rows + 16

def onPath (rows : Cost) : Cost := rows + 15

def reach (covering : Path → Bool) (path : Path) (rows : Cost) : Cost :=
  match path with
  | .number => tableRows.search.add (onTable rows)
  | .column _ =>
      let found := tableRows.search.add (onPath rows)
      if covering path then found else found.add (onTable rows)

def point (covering : Path → Bool) (path : Path) : Way :=
  { path := path, cost := reach covering path 0, rows := 0, equations := 1 }

def list (covering : Path → Bool) (path : Path) (size : Nat) : Way :=
  let rows := Cost.ofCount size
  { path := path, cost := reach covering path 0 + rows, rows := rows }

namespace Access

def both (a b : Access) : Access :=
  ⟨a.points ++ b.points, a.lower ++ b.lower, a.upper ++ b.upper, a.terms + b.terms,
    a.equations + b.equations⟩

def plan (a : Access) (w : Way) : Plan :=
  ⟨w.cost, min (w.rows - (a.terms - w.terms : Nat))
    (tableRows - if w.equations < a.equations then 20 else 0), [⟨w.path, []⟩]⟩

def ranges (covering : Path → Bool) (a : Access) : List Way :=
  (a.lower ++ a.upper).map fun p =>
    if a.lower.contains p && a.upper.contains p then
      { path := p, cost := reach covering p segment, rows := segment, terms := 2 }
    else { path := p, cost := reach covering p halfLine, rows := halfLine }

def plans (covering : Path → Bool) (a outer : Access) : List Plan :=
  let together := a.both outer
  (together.points ++ together.ranges covering).map a.plan

end Access

namespace Plan

def least (measure : Plan → List Cost) : List Plan → Option Plan
  | [] => none
  | p :: rest =>
      match least measure rest with
      | none => some p
      | some q => if compare (measure q) (measure p) == .lt then some q else some p

def cheapest : List Plan → Option Plan := least fun p => [p.cost, p.rows]

def within (c : Condition) (p : Plan) : Plan :=
  { p with stretches := p.stretches.map fun s => { s with conditions := c :: s.conditions } }

def sum : List Plan → Option Plan
  | [] => none
  | p :: rest =>
      some ⟨rest.foldl (fun cost q => cost.add q.cost) p.cost + 1,
        rest.foldl (fun rows q => rows.add q.rows) p.rows,
        (p :: rest).flatMap (·.stretches)⟩

end Plan

variable (l : Layout) (covering : Path → Bool)

def isConstant : Expr → Bool
  | .field name => (l.place? name).isNone
  | .lower inner => isConstant inner

def placeOf? : Expr → Option Place
  | .field name => l.place? name
  | .lower _ => none

def pathOf? (e : Expr) : Option Path := (placeOf? l e).filter l.paths.contains

def flipped : CompareOp → CompareOp
  | .gt => .lt
  | .ge => .le
  | .lt => .gt
  | .le => .ge
  | op => op

def comparison? : Condition → Option (Expr × CompareOp)
  | .compare e op _ => some (e, op)
  | .among e _ [] => some (e, .eq)
  | .compareFields left op right =>
      if isConstant l right then some (left, op)
      else if isConstant l left then some (right, flipped op)
      else none
  | _ => none

def equalPlace? (c : Condition) : Option Place :=
  match comparison? l c with
  | some (e, .eq) => placeOf? l e
  | _ => none

mutual

def namesIn : Condition → List String
  | .constant _ => []
  | .compare e _ _ => [e.column]
  | .compareFields left _ right => [left.column, right.column]
  | .among e _ _ => [e.column]
  | .isNull e => [e.column]
  | .isNotNull e => [e.column]
  | .like e _ _ => [e.column]
  | .negate inner => namesIn inner
  | .all first rest => namesIn first ++ namesInAll rest
  | .any first rest => namesIn first ++ namesInAll rest

def namesInAll : List Condition → List String
  | [] => []
  | c :: rest => namesIn c ++ namesInAll rest

end

mutual

def conjuncts : Condition → List Condition
  | .all first rest => conjuncts first ++ conjunctsOf rest
  | c => [c]

def conjunctsOf : List Condition → List Condition
  | [] => []
  | c :: rest => conjuncts c ++ conjunctsOf rest

end

def isCovered (path : Path) (names : List String) : Bool :=
  names.all fun name =>
    match l.place? name with
    | none => true
    | some .number => true
    | some p => p == path

def narrowing (path : Path) : CompareOp → Access
  | .eq => { points := [point covering path] }
  | .ne => {}
  | .gt => { lower := [path] }
  | .ge => { lower := [path] }
  | .lt => { upper := [path] }
  | .le => { upper := [path] }

def nulls (path : Path) : Access :=
  match path with
  | .number => {}
  | .column _ => { points := [{ path := path, cost := reach covering path 10, rows := 10 }] }

def narrowingOf (c : Condition) : Access :=
  match comparison? l c with
  | some (e, op) => ((pathOf? l e).map (narrowing covering · op)).getD {}
  | none =>
      match c with
      | .among e _ rest =>
          ((pathOf? l e).map fun p =>
            { points := [list covering p (rest.length + 1)] : Access }).getD {}
      | .isNull e => ((pathOf? l e).map (nulls covering)).getD {}
      | _ => {}

def leafAccess (c : Condition) : Access :=
  { narrowingOf l covering c with
    terms := if (namesIn c).any fun name => (l.place? name).isSome then 1 else 0
    equations := if (equalPlace? l c).isSome then 1 else 0 }

mutual

def equalPaths : Condition → List (Option Path)
  | .any first rest => equalPaths first ++ equalPathsAll rest
  | c => [(equalPlace? l c).filter l.paths.contains]

def equalPathsAll : List Condition → List (Option Path)
  | [] => []
  | c :: rest => equalPaths c ++ equalPathsAll rest

end

def listed (paths : List (Option Path)) : Access :=
  match paths with
  | some p :: rest =>
      if rest.all (· == some p) then { points := [list covering p paths.length], terms := 1 }
      else { terms := 1 }
  | _ => { terms := 1 }

mutual

def access : Condition → Access
  | .all first rest => (access first).both (accessAll rest)
  | .any first rest => listed covering (equalPaths l first ++ equalPathsAll l rest)
  | c => leafAccess l covering c

def accessAll : List Condition → Access
  | [] => {}
  | c :: rest => (access c).both (accessAll rest)

end

mutual

def disjunctions (outer : Access) : Condition → List Plan
  | .all first rest => disjunctions outer first ++ disjunctionsAll outer rest
  | .any first rest =>
      (((alternatives outer first ++ alternativesAll outer rest).mapM id).bind Plan.sum).toList
  | _ => []

def disjunctionsAll (outer : Access) : List Condition → List Plan
  | [] => []
  | c :: rest => disjunctions outer c ++ disjunctionsAll outer rest

def alternatives (outer : Access) : Condition → List (Option Plan)
  | .any first rest => alternatives outer first ++ alternativesAll outer rest
  | .all first rest =>
      let own := access l covering (.all first rest)
      let inner := own.both outer
      let nested := disjunctions inner first ++ disjunctionsAll inner rest
      [(Plan.cheapest (own.plans covering outer ++ nested)).map (Plan.within (.all first rest))]
  | c => [(Plan.cheapest ((leafAccess l covering c).plans covering outer)).map (Plan.within c)]

def alternativesAll (outer : Access) : List Condition → List (Option Plan)
  | [] => []
  | c :: rest => alternatives outer c ++ alternativesAll outer rest

end

def searches (conditions : List Condition) : List Plan :=
  let outer := accessAll l covering conditions
  outer.plans covering {} ++ disjunctionsAll l covering outer conditions

end RecordQuery.Database
