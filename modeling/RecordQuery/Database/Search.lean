import RecordQuery.Data.Sort
import RecordQuery.Database.Visit

namespace RecordQuery.Database

open RecordQuery.Sql

variable (l : Layout)

def compareEntries (orders : List Order) (a b : Entry) : Ordering :=
  Order.compareBy (fun e => (cellOf l a e).order (cellOf l b e)) orders

def sortEntries {α : Type} (orders : List Order) (entry : α → Entry) (items : List α) : List α :=
  sortBy (fun a b => compareEntries l orders (entry a) (entry b) == .lt) items

def along (entries : List Entry) (s : Stretch) : List Entry :=
  sortBy (fun a b => (a.cell s.path).order (b.cell s.path) == .lt)
    (entries.filter fun e => satisfies l e s.conditions)

def visitAll (entries : List Entry) : List Stretch → List Entry
  | [] => []
  | s :: rest =>
      let here := along l entries s
      here ++ visitAll (entries.filter fun e => here.all (·.number != e.number)) rest

def visited (entries : List Entry) (s : Select) : List Entry :=
  match ((planFor l s).map (·.stretches)).getD [] with
  | [stretch] =>
      let here := along l entries stretch
      if isBackward l s stretch.path then here.reverse else here
  | stretches => visitAll l entries stretches

def firstOfEach {α : Type} [BEq α] (pairs : List (α × Entry)) : List (α × Entry) :=
  (pairs.foldl (fun kept x => if kept.any (·.1 == x.1) then kept else x :: kept) []).reverse

def found (t : Table) (s : Select) : List Entry :=
  (visited t.layout t.entries s).filter fun e => satisfies t.layout e s.conditions

def answers {α : Type} [BEq α] (t : Table) (s : Select) (answer : Entry → α) : List α :=
  let pairs := (found t s).map fun e => (answer e, e)
  let pairs := if s.distinct then firstOfEach pairs else pairs
  page s.first s.limit ((sortEntries t.layout s.orders (·.2) pairs).map (·.1))

def rowCells (l : Layout) (e : Entry) : List Cell :=
  l.names.map fun name => cellOf l e (.field name)

def foundRows (t : Table) (s : Select) : List (List Cell) := answers t s (rowCells t.layout)

def foundCells (t : Table) (s : Select) (name : String) : List Cell :=
  answers t s (cellOf t.layout · (.field name))

def foundCount (t : Table) (s : Select) : Nat :=
  if s.distinct then
    (((found t s).map (cellOf t.layout · (.field Row.idColumn))).eraseDups.filter
      fun c => !c.isNull).length
  else (found t s).length

end RecordQuery.Database
