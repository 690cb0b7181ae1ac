import RecordQuery.Json.Reader
import RecordQuery.Json.Record
import RecordQuery.Json.Writer
import RecordQuery.Row

namespace RecordQuery

open RecordQuery.Time

structure Audit where
  id : Int64 := 0
  created : Instant := Instant.epoch
  edited : Instant := Instant.epoch
  creator : Option Int64 := none
  editor : Option Int64 := none
  version : Int64 := 0
  deleted : Bool := false
  deriving DecidableEq, Repr

namespace Audit

def createdColumn : String := "created"

def editedColumn : String := "edited"

def creatorColumn : String := "creator"

def editorColumn : String := "editor"

def deletedColumn : String := "deleted"

def toRow (a : Audit) : Row :=
  Keyed.ofList [(Row.idColumn, .int a.id), (createdColumn, .time a.created),
    (editedColumn, .time a.edited), (creatorColumn, .ofOption .int a.creator),
    (editorColumn, .ofOption .int a.editor), (Row.versionColumn, .int a.version),
    (deletedColumn, .bool a.deleted)]

def ofRow (row : Row) : Except Row.ReadError Audit := do
  let id ← Row.int row Row.idColumn
  let created ← Row.time row createdColumn
  let edited ← Row.time row editedColumn
  let creator ← Row.int? row creatorColumn
  let editor ← Row.int? row editorColumn
  let version ← Row.int row Row.versionColumn
  let deleted ← Row.bool? row deletedColumn
  return ⟨id, created, edited, creator, editor, version, deleted.getD false⟩

def names : List String :=
  ["id", "created", "edited", "creator", "editor", "version", "deleted"]

def asTime (j : Json) : Option Instant := do
  match readRelaxed (← j.asText).toList with
  | .ok t => some t
  | .error _ => none

def ofMembers? (members : Json.Members) : Option Audit := do
  let id ← members.required "id" Json.asInt64
  let created ← members.required "created" asTime
  let edited ← members.required "edited" asTime
  let creator ← members.optional "creator" Json.asInt64
  let editor ← members.optional "editor" Json.asInt64
  let version ← members.required "version" Json.asInt64
  let deleted ← members.required "deleted" Json.asBool
  return ⟨id, created, edited, creator, editor, version, deleted⟩

def ofJson? : Json → Option Audit
  | .list items => if items.length = 7 then ofMembers? (names.zip items) else none
  | j => (j.objectMembers? names).bind ofMembers?

def ofOptionInt : Option Int64 → Json
  | none => .null
  | some n => .int n.toInt

def json (a : Audit) : Json :=
  .object [("id", .int a.id.toInt), ("created", .text a.created.text),
    ("edited", .text a.edited.text), ("creator", ofOptionInt a.creator),
    ("editor", ofOptionInt a.editor), ("version", .int a.version.toInt),
    ("deleted", .bool a.deleted)]

def readJson? (s : String) : Option Audit := (Json.read? s).bind ofJson?

end Audit

end RecordQuery
