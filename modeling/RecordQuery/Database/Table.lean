import RecordQuery.Database.Affinity

namespace RecordQuery.Database

open RecordQuery.Text

structure Column where
  name : String
  affinity : Affinity := .any
  required : Bool := false
  unique : Bool := false
  initial : Cell := .null
  deriving DecidableEq, Repr

/-- The columns of a table. Its rows are numbered; the numbers are the cells of the key column, if
there is one, which goes before the others. In a `lasting` table the number of a row that is gone is
not given to another. -/
structure Layout where
  name : String
  key : Option String := some Row.idColumn
  columns : List Column
  lasting : Bool := false
  deriving DecidableEq, Repr

abbrev Record := Keyed String Cell

structure Entry where
  number : Int64
  record : Record
  deriving DecidableEq

structure Table where
  layout : Layout
  records : Keyed Int64 Record := .empty

def folded (name : String) : String := String.ofList (lowerAscii name.toList)

def sameName (a b : String) : Bool := folded a == folded b

inductive Place where
  | number
  | column (column : Column)
  deriving DecidableEq, Repr

def numberNames : List String := ["rowid", "_rowid_", "oid"]

namespace Layout

def names (l : Layout) : List String := l.key.toList ++ l.columns.map (·.name)

def place? (l : Layout) (name : String) : Option Place :=
  if l.key.any (sameName name) then some .number
  else
    match l.columns.find? (sameName name ·.name) with
    | some c => some (.column c)
    | none => if numberNames.any (sameName name) then some .number else none

def numberName (l : Layout) : String := l.key.getD "rowid"

def stranger? (l : Layout) (names : List String) : Option String :=
  names.find? fun name => (l.place? name).isNone

end Layout

namespace Entry

def column (e : Entry) (c : Column) : Cell := (e.record.get? c.name).getD .null

def cell (e : Entry) : Place → Cell
  | .number => .int e.number
  | .column c => e.column c

end Entry

namespace Table

def entries (t : Table) : List Entry := t.records.entries.map fun x => ⟨x.1, x.2⟩

def put (t : Table) (e : Entry) : Table := { t with records := t.records.put e.number e.record }

theorem entries_number (t : Table) : t.entries.map (·.number) = t.records.keys := by
  simp [entries, Keyed.keys]

end Table

end RecordQuery.Database
