import RecordQuery.Database.Table
import RecordQuery.Entity

namespace RecordQuery

open RecordQuery.Database

structure Document where
  audit : Audit := {}
  title : String := ""
  deriving DecidableEq, Repr

namespace Document

def titleColumn : String := "title"

def toRow (d : Document) : Row := d.audit.toRow.put titleColumn (.text d.title)

def ofRow (row : Row) : Except Row.ReadError Document := do
  let audit ← Audit.ofRow row
  let title ← Row.text row titleColumn
  return ⟨audit, title⟩

instance : Audited Document where
  name := "document"
  id d := d.audit.id
  version d := some d.audit.version
  withId d id := { d with audit := { d.audit with id := id } }
  withVersion d version := { d with audit := { d.audit with version := version } }
  toRow := toRow
  ofRow := ofRow
  blank := {}
  audit := audit
  withAudit d audit := { d with audit := audit }

def layout : Layout where
  name := "document"
  columns := [
    { name := "created", affinity := .text, required := true },
    { name := "edited", affinity := .text, required := true },
    { name := "creator", affinity := .integer },
    { name := "editor", affinity := .integer },
    { name := "version", affinity := .integer, required := true, initial := .int 0 },
    { name := "deleted", affinity := .integer },
    { name := "title", affinity := .text, required := true }]
  lasting := true

end Document

end RecordQuery
