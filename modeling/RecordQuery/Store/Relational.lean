import RecordQuery.Database
import RecordQuery.Store

namespace RecordQuery

open RecordQuery.Database RecordQuery.Sql

structure Relational where
  session : Session
  cache : Cache := {}
  unitOfWork : Option Ticket := none
  begun : Nat := 0

namespace Relational

def ofLayouts (layouts : List Layout) (draws : List Int64 := []) : Relational :=
  { session := ⟨.ofLayouts layouts draws, none⟩ }

def dialect : Dialect := embedded

def cellsOf (row : Row) : List (String × Cell) := row.entries.map fun x => (x.1, .ofValue x.2)

def rowOfCells : List (String × Cell) → Except DecodeFault Row
  | [] => .ok .empty
  | (name, cell) :: rest =>
      match cell.value? with
      | .error fault => .error (.cellOf name fault)
      | .ok v =>
          match rowOfCells rest with
          | .error fault => .error fault
          | .ok row => .ok (row.put name v)

def rowOf (entity : String) (l : Layout) (cells : List Cell) : Except StoreError Row :=
  match rowOfCells (l.names.zip cells) with
  | .ok row => .ok row
  | .error fault => .error (.decode entity fault)

def valueOf (cell : Cell) : Except StoreError Value :=
  match cell.value? with
  | .ok v => .ok v
  | .error fault => .error (.decode "column" (.cell fault))

def select (q : Query) (projection : Projection) : Except StoreError Select :=
  match Select.ofQuery q projection with
  | .ok s => .ok s
  | .error fault => .error (.ofQuery fault)

def searched (t : Table) (selection : Select) : Except StoreError Table :=
  match t.fault? selection.conditions with
  | none => .ok t
  | some fault => .error (.database fault)

def rowsOf (entity : String) (selection : Select) (s : Relational) :
    Except StoreError (List Row) :=
  match s.session.select selection with
  | .error fault => .error (.sql (.query entity fault))
  | .ok t => do
      let t ← searched t selection
      (foundRows t selection).mapM (rowOf entity t.layout)

def rows (q : Query) (s : Relational) : Except StoreError (List Row) := do
  rowsOf q.entity (← select q .rows) s

def tableOf (selection : Select) (s : Relational) : Except StoreError Table :=
  match s.session.select selection with
  | .ok t => searched t selection
  | .error fault => .error (.sql (.execute ((selection.statement dialect).write dialect) fault))

def valuesOf (selection : Select) (name : String) (s : Relational) :
    Except StoreError (List Value) := do
  let t ← tableOf selection s
  (foundCells t selection name).mapM valueOf

def column (q : Query) (name : String) (s : Relational) : Except StoreError (List Value) := do
  valuesOf (← select q (.column name)) name s

def count (q : Query) (s : Relational) : Except StoreError Int64 := do
  let selection ← select q .count
  let t ← tableOf selection s
  return .ofNat (foundCount t selection)

def byId (entity : String) (projection : Projection) (id : Int64) : Select :=
  ⟨entity, projection, false, [.compare (.field Row.idColumn) .eq (.int id)], [], none, none⟩

def find (entity : String) (id : Int64) (s : Relational) :
    Except StoreError (Option Row) × Relational :=
  match s.cache.get entity id with
  | (some row, cache) => (.ok (some row), { s with cache := cache })
  | (none, cache) =>
      match rowsOf entity (byId entity .rows id) s with
      | .error e => (.error e, { s with cache := cache })
      | .ok [] => (.ok none, { s with cache := cache })
      | .ok (row :: _) => (.ok (some row), { s with cache := cache.put entity id row })

def withoutId (row : Row) : Row := row.erase Row.idColumn

def insert (entity : String) (row : Row) (s : Relational) : Except StoreError Row × Relational :=
  let row :=
    if row.contains Row.versionColumn then row.put Row.versionColumn (.int 0) else row
  match s.session.insert entity (cellsOf (withoutId row)) with
  | .error fault =>
      (.error (.sql (.insert entity fault)), { s with session := s.session.failed fault })
  | .ok (id, session) =>
      let row := row.put Row.idColumn (.int id)
      (.ok row, { s with session := session, cache := s.cache.put entity id row })

def storedVersion (entity : String) (id : Int64) (s : Relational) :
    Except StoreError (Option Int64) := do
  let name := Row.versionColumn
  return (← valuesOf (byId entity (.column name) id) name s).head?.bind Value.asInt

def rowExists (entity : String) (id : Int64) (s : Relational) : Except StoreError Bool := do
  let name := Row.idColumn
  return !(← valuesOf (byId entity (.column name) id) name s).isEmpty

def assigned (row : Row) : List (String × Cell) :=
  cellsOf ((row.erase Row.idColumn).erase Row.versionColumn)

def change (entity : String) (id : Int64) (expected : Option Int64) (row : Row) (s : Relational) :
    Except StoreError (Bool × Session) :=
  if (assigned row).isEmpty && expected.isNone then
    (rowExists entity id s).map (·, s.session)
  else
    match s.session.update entity id expected (assigned row) with
    | .ok r => .ok r
    | .error fault => .error (.sql (.update entity id fault))

def put (entity : String) (id : Int64) (row : Row) (session : Session) (s : Relational) :
    Except StoreError Row × Relational :=
  (.ok row, { s with session := session, cache := s.cache.put entity id row })

def update (entity : String) (id : Int64) (expected : Option Int64) (row : Row) (s : Relational) :
    Except StoreError Row × Relational :=
  let row := row.put Row.idColumn (.int id)
  match change entity id expected row s with
  | .error e => (.error e, s)
  | .ok (true, session) =>
      match expected with
      | none => put entity id row session s
      | some version =>
          -- The row of the table is changed before its version is counted on here.
          match numberAfter version with
          | .error e => (.error e, { s with session := session })
          | .ok raised => put entity id (row.put Row.versionColumn (.int raised)) session s
  | .ok (false, session) =>
      match expected with
      | some version =>
          match storedVersion entity id s with
          | .error e => (.error e, s)
          | .ok actual => (.error (.versionConflict entity id version actual), s)
      | none =>
          match session.insert entity (cellsOf row) with
          | .error fault =>
              (.error (.sql (.insert entity fault)), { s with session := session.failed fault })
          | .ok (_, session) => put entity id row session s

def next (name : String) (s : Relational) : Except StoreError Int64 × Relational :=
  match s.session.next name with
  | .error fault => (.error (.sql (.execute dialect.nextInSequence fault)), s)
  | .ok (cell, session) =>
      let s := { s with session := session }
      match valueOf cell with
      | .error e => (.error e, s)
      | .ok v => (.ok (v.asInt.getD 0), s)

def openUnit (s : Relational) : Except StoreError Ticket :=
  match s.unitOfWork with
  | some ticket => .ok ticket
  | none => .error (.sql .noTransaction)

def sql? (q : Query) (projection : Projection) : Option String :=
  match render dialect q projection with
  | .ok statement => some (statement.write dialect)
  | .error _ => none

instance : Store Relational where
  rows := rows
  column := column
  count := count
  find := find
  insert := insert
  update := update
  flush s := s
  cache s := s.cache
  withCache s c := { s with cache := c }
  next := next
  openUnit := openUnit
  sql q projection _ := sql? q projection

def beginUnit (s : Relational) : Except StoreError Ticket × Relational :=
  match s.unitOfWork with
  | some ticket => (.error (.sql (.alreadyOpen ticket)), s)
  | none =>
      match s.session.begin with
      | .error fault => (.error (.sql (.openUnit fault)), s)
      | .ok session =>
          let ticket := s.begun + 1
          (.ok ticket, { s with session := session, unitOfWork := some ticket, begun := ticket })

def endUnit (commit : Bool) (s : Relational) : Except StoreError Unit × Relational :=
  match s.unitOfWork with
  | none => (.ok (), s)
  | some _ =>
      let s := { s with unitOfWork := none }
      match if commit then s.session.commit else s.session.rollback with
      | .ok session => (.ok (), { s with session := session })
      | .error fault => (.error (.sql (if commit then .commit fault else .rollback fault)), s)

inductive Control where
  | begin
  | commit
  | rollback
  deriving DecidableEq, Repr

def control (c : Control) (s : Relational) : Except StoreError Unit × Relational :=
  let result :=
    match c with
    | .begin => s.session.begin
    | .commit => s.session.commit
    | .rollback => s.session.rollback
  match result with
  | .ok session => (.ok (), { s with session := session })
  | .error fault => (.error (.sql (.batch fault)), s)

def writeExternally (entity : String) (id : Int64) (cells : List (String × Cell))
    (s : Relational) : Except StoreError Unit × Relational :=
  let result :=
    if cells.isEmpty then .error (.unexpected "WHERE") else s.session.update entity id none cells
  match result with
  | .ok (_, session) => (.ok (), { s with session := session })
  | .error fault => (.error (.sql (.batch fault)), s)

def reopen (s : Relational) : Relational :=
  { session := ⟨s.session.saved.getD s.session.contents, none⟩, begun := s.begun }

end Relational

end RecordQuery
