import RecordQuery.Data.Sort
import RecordQuery.Store

namespace RecordQuery

def compareRows (orders : List Order) (a b : Row) : Ordering :=
  Order.compareBy (fun e => (e.value a).sortCompare (e.value b)) orders

structure Memory where
  tables : RowFile := {}
  lastId : Int64 := 0
  sequences : Keyed String Int64 := .empty
  cache : Cache := {}
  flushes : Nat := 0
  unitOfWork : Option Ticket := none
  begun : Nat := 0
  deriving DecidableEq

namespace Memory

instance : Inhabited Memory := ⟨{}⟩

def accepted (m : Matcher) : List Row → Except QueryFault (List Row)
  | [] => .ok []
  | row :: rest =>
      match m.accepts row with
      | .error fault => .error fault
      | .ok b =>
          match accepted m rest with
          | .error fault => .error fault
          | .ok rows => .ok (if b then row :: rows else rows)

def sorted (orders : List Order) (rows : List Row) : List Row :=
  sortBy (fun a b => compareRows orders a b == .lt) rows

def distinctIf {α : Type} [BEq α] (distinct : Bool) (items : List α) : List α :=
  if distinct then items.eraseDups else items

def select (q : Query) (s : Memory) : Except StoreError (List Row) :=
  match Matcher.of q.predicates q.bindings with
  | .error fault => .error (.ofQuery fault)
  | .ok m =>
      match accepted m (s.tables.region q.entity).values with
      | .error fault => .error (.ofQuery fault)
      | .ok rows => .ok (distinctIf q.distinct (sorted q.orders rows))

def rows (q : Query) (s : Memory) : Except StoreError (List Row) := (select q s).map q.page

def column (q : Query) (name : String) (s : Memory) : Except StoreError (List Value) :=
  (select q s).map fun rows => q.page (distinctIf q.distinct (rows.map (Row.value · name)))

def count (q : Query) (s : Memory) : Except StoreError Int64 :=
  (select q s).map fun rows =>
    .ofNat (distinctIf q.distinct (rows.map (Row.value · Row.idColumn))).length

def find (entity : String) (id : Int64) (s : Memory) : Except StoreError (Option Row) × Memory :=
  match s.cache.get entity id with
  | (some row, cache) => (.ok (some row), { s with cache := cache })
  | (none, cache) =>
      match s.tables.row? entity id with
      | some row => (.ok (some row), { s with cache := cache.put entity id row })
      | none => (.ok none, { s with cache := cache })

def withVersionIfAny (row : Row) (version : Int64) : Row :=
  if row.contains Row.versionColumn then row.put Row.versionColumn (.int version) else row

def write (entity : String) (id : Int64) (row : Row) (s : Memory) : Memory :=
  { s with tables := s.tables.put entity id row, cache := s.cache.put entity id row }

def insert (entity : String) (row : Row) (s : Memory) : Except StoreError Row × Memory :=
  match numberAfter s.lastId with
  | .error e => (.error e, s)
  | .ok id =>
      let row := withVersionIfAny (row.put Row.idColumn (.int id)) 0
      (.ok row, { write entity id row s with lastId := id })

def storedVersion (entity : String) (id : Int64) (s : Memory) :
    Except StoreError (Option Int64) :=
  match s.tables.row? entity id with
  | none => .ok none
  | some row =>
      match Row.int? row Row.versionColumn with
      | .ok version => .ok version
      | .error e => .error (.decode entity (.read e))

def replace (entity : String) (id : Int64) (row : Row) (s : Memory) :
    Except StoreError Row × Memory :=
  (.ok row, { write entity id row s with lastId := max s.lastId id })

def update (entity : String) (id : Int64) (expected : Option Int64) (row : Row) (s : Memory) :
    Except StoreError Row × Memory :=
  let row := row.put Row.idColumn (.int id)
  match expected with
  | none => replace entity id row s
  | some version =>
      match storedVersion entity id s with
      | .error e => (.error e, s)
      | .ok actual =>
          if actual = some version then
            match numberAfter version with
            | .error e => (.error e, s)
            | .ok raised => replace entity id (row.put Row.versionColumn (.int raised)) s
          else (.error (.versionConflict entity id version actual), s)

def next (name : String) (s : Memory) : Except StoreError Int64 × Memory :=
  match numberAfter ((s.sequences.get? name).getD 0) with
  | .error e => (.error e, s)
  | .ok value => (.ok value, { s with sequences := s.sequences.put name value })

def openUnit (s : Memory) : Except StoreError Ticket :=
  match s.unitOfWork with
  | some ticket => .ok ticket
  | none => .error (.sql .noUnitOfWork)

instance : Store Memory where
  rows := rows
  column := column
  count := count
  find := find
  insert := insert
  update := update
  flush s := { s with flushes := s.flushes + 1 }
  cache s := s.cache
  withCache s c := { s with cache := c }
  next := next
  openUnit := openUnit
  sql _ _ _ := none

def beginUnit (s : Memory) : Ticket × Memory :=
  (s.begun + 1, { s with unitOfWork := some (s.begun + 1), begun := s.begun + 1 })

def endUnit (s : Memory) : Memory := { s with unitOfWork := none }

def writeExternally (entity : String) (row : Row) (s : Memory) : Except StoreError Unit × Memory :=
  match Row.int row Row.idColumn with
  | .error e => (.error (.decode entity (.read e)), s)
  | .ok id =>
      (.ok (), { s with tables := s.tables.put entity id row, lastId := max s.lastId id })

def rowCount (entity : String) (s : Memory) : Nat := (s.tables.region entity).size

end Memory

end RecordQuery
