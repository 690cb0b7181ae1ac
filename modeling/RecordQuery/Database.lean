import RecordQuery.Database.Change
import RecordQuery.Database.Limit

namespace RecordQuery

namespace Database

open RecordQuery.Sql

structure Contents where
  tables : Keyed String Table := .empty
  draws : List Int64 := []

def sequences : Layout where
  name := sequenceTable
  key := none
  columns := [
    { name := "name", affinity := .text, unique := true },
    { name := "value", affinity := .integer, required := true }]

def counters : Layout where
  name := "sqlite_sequence"
  key := none
  columns := [{ name := "name" }, { name := "seq" }]

namespace Contents

def put (c : Contents) (t : Table) : Contents :=
  { c with tables := c.tables.put (folded t.layout.name) t }

def table? (c : Contents) (name : String) : Except DatabaseFault Table :=
  match c.tables.get? (folded name) with
  | some t => .ok t
  | none => .error (.noTable name)

def ofLayouts (layouts : List Layout) (draws : List Int64 := []) : Contents :=
  (sequences :: counters :: layouts).foldl (fun c l => c.put ⟨l, .empty⟩) { draws := draws }

def counterOf (t : Table) (name : String) : Option Entry :=
  t.entries.find? fun e => cellOf t.layout e (.field "name") == .text name

def counterValue (e : Entry) : Int64 :=
  match cellOf counters e (.field "seq") with
  | .int n => n
  | _ => 0

def counter (c : Contents) (name : String) : Int64 :=
  match c.tables.get? counters.name with
  | none => 0
  | some t => ((counterOf t name).map counterValue).getD 0

def raiseCounter (c : Contents) (name : String) (number : Int64) : Contents :=
  match c.tables.get? counters.name with
  | none => c
  | some t =>
      let cells (n : Int64) : Cells := [("name", .text name), ("seq", .int n)]
      let written : Except DatabaseFault Table :=
        match counterOf t name with
        | none => (t.insert counters.name 0 c.draws (cells (max 0 number))).map (·.2)
        | some e => if number ≤ counterValue e then .ok t else t.replace e (cells number)
      match written with
      | .ok t => c.put t
      | .error _ => c

end Contents

structure Session where
  contents : Contents
  saved : Option Contents := none

namespace Session

def select (s : Session) (selection : Select) : Except DatabaseFault Table :=
  match checkSelect selection with
  | .error fault => .error fault
  | .ok () => s.contents.table? selection.table

def insert (s : Session) (name : String) (cells : Cells) :
    Except DatabaseFault (Int64 × Session) := do
  checkName name
  cells.forM fun x => checkName x.1
  if cells.isEmpty then throw (.unexpected ")")
  let t ← s.contents.table? name
  let (number, t) ← t.insert name (s.contents.counter t.layout.name) s.contents.draws cells
  let contents := s.contents.put t
  let contents :=
    if t.layout.lasting then contents.raiseCounter t.layout.name number else contents
  return (number, { s with contents := contents })

def aim (id : Int64) (version : Option Int64) : List Condition :=
  .compare (.field Row.idColumn) .eq (.int id) ::
    version.toList.map fun v => .compare (.field Row.versionColumn) .eq (.int v)

def update (s : Session) (name : String) (id : Int64) (expected : Option Int64) (cells : Cells) :
    Except DatabaseFault (Bool × Session) := do
  checkName name
  cells.forM fun x => checkName x.1
  let t ← s.contents.table? name
  let (done, t) ← t.update (aim id expected) (expected.map fun _ => Row.versionColumn) cells
  return (done, { s with contents := s.contents.put t })

def next (s : Session) (name : String) : Except DatabaseFault (Cell × Session) := do
  let t ← s.contents.table? sequences.name
  let named : Condition := .compare (.field "name") .eq (.text name)
  let (raised, t) ← t.update [named] (some "value") []
  let t ← if raised then pure t else
    (t.insert sequences.name 0 s.contents.draws
      [("name", .text name), ("value", .int 1)]).map (·.2)
  let value := (t.entries.find? fun e => satisfies t.layout e [named]).map
    (cellOf t.layout · (.field "value"))
  return (value.getD .null, { s with contents := s.contents.put t })

def failed (s : Session) (fault : DatabaseFault) : Session :=
  if fault = .full then ⟨s.saved.getD s.contents, none⟩ else s

def begin (s : Session) : Except DatabaseFault Session :=
  match s.saved with
  | none => .ok { s with saved := some s.contents }
  | some _ => .error .beginInside

def commit (s : Session) : Except DatabaseFault Session :=
  match s.saved with
  | none => .error .commitOutside
  | some _ => .ok { s with saved := none }

def rollback (s : Session) : Except DatabaseFault Session :=
  match s.saved with
  | none => .error .rollbackOutside
  | some contents => .ok ⟨contents, none⟩

end Session

end Database

end RecordQuery
