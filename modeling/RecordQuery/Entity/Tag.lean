import RecordQuery.Database.Table
import RecordQuery.Entity

namespace RecordQuery

open RecordQuery.Database

structure Tag where
  id : Int64 := 0
  label : Option String := none
  deriving DecidableEq, Repr

namespace Tag

def labelColumn : String := "label"

def toRow (t : Tag) : Row :=
  .ofList [(Row.idColumn, .int t.id), (labelColumn, .ofOption .text t.label)]

def ofRow (row : Row) : Except Row.ReadError Tag := do
  let id ← Row.int row Row.idColumn
  let label ← Row.text? row labelColumn
  return ⟨id, label⟩

instance : Entity Tag where
  name := "tag"
  id := id
  version _ := none
  withId t id := { t with id := id }
  withVersion t _ := t
  toRow := toRow
  ofRow := ofRow
  blank := {}

def layout : Layout where
  name := "tag"
  columns := [{ name := "label", affinity := .text }]

end Tag

end RecordQuery
