import RecordQuery.Entity.Document
import RecordQuery.Proofs.Store.Run

namespace RecordQuery

class LawfulVersions (E : Type) [Entity E] : Prop where
  hasVersion (a : E) : (Entity.toRow a).contains Row.versionColumn = true
  ofRow_versioned (a : E) (id version : Int64) :
    Entity.ofRow (Memory.versioned id version (Entity.toRow a)) =
      .ok (Entity.withVersion (Entity.withId a id) version)
  id_set (a : E) (id version : Int64) :
    Entity.id (Entity.withVersion (Entity.withId a id) version) = id
  version_set (a : E) (id version : Int64) :
    Entity.version (Entity.withVersion (Entity.withId a id) version) = some version
  withId_id (a : E) : Entity.withId a (Entity.id a) = a

namespace Row

@[simp] theorem value_empty (name : String) : value .empty name = .null := rfl

@[simp] theorem value_put (row : Row) (column name : String) (v : Value) :
    value (row.put column v) name = if name = column then v else value row name := by
  rw [value, Keyed.get?_put]
  split <;> rfl

variable {row : Row} {column : String}

theorem int?_of_value {n : Option Int64} (h : value row column = .ofOption .int n) :
    int? row column = .ok n := by
  cases n <;> simp [int?, read?, h, Value.ofOption, Value.asInt]

theorem int_of_value {n : Int64} (h : value row column = .int n) : int row column = .ok n := by
  simp [int, read, read?, h, Value.asInt]

theorem text_of_value {s : String} (h : value row column = .text s) :
    text row column = .ok s := by
  simp [text, read, read?, h, Value.asText]

theorem bool?_of_value {b : Bool} (h : value row column = .bool b) :
    bool? row column = .ok (some b) := by
  simp [bool?, read?, h, Value.asBool]

theorem time_of_value {t : Time.Instant} (h : value row column = .time t) :
    time row column = .ok t := by
  simp [time, read, read?, h, Value.asTime]

end Row

theorem Audit.ofRow_of_values {row : Row} {a : Audit}
    (hid : Row.value row Row.idColumn = .int a.id)
    (hcreated : Row.value row createdColumn = .time a.created)
    (hedited : Row.value row editedColumn = .time a.edited)
    (hcreator : Row.value row creatorColumn = .ofOption .int a.creator)
    (heditor : Row.value row editorColumn = .ofOption .int a.editor)
    (hversion : Row.value row Row.versionColumn = .int a.version)
    (hdeleted : Row.value row deletedColumn = .bool a.deleted) : ofRow row = .ok a := by
  rw [ofRow, Row.int_of_value hid, Row.time_of_value hcreated, Row.time_of_value hedited,
    Row.int?_of_value hcreator, Row.int?_of_value heditor, Row.int_of_value hversion,
    Row.bool?_of_value hdeleted]
  rfl

namespace Document

theorem hasVersion (d : Document) : (toRow d).contains Row.versionColumn = true := by
  simp [toRow, Audit.toRow, Keyed.ofList, Keyed.contains, Row.versionColumn, titleColumn,
    Audit.deletedColumn]

theorem ofRow_versioned (d : Document) (id version : Int64) :
    ofRow (Memory.versioned id version (toRow d)) =
      .ok { d with audit := { d.audit with id := id, version := version } } := by
  have haudit : Audit.ofRow (Memory.versioned id version (toRow d)) =
      .ok { d.audit with id := id, version := version } := by
    apply Audit.ofRow_of_values <;>
      simp [Memory.versioned, Memory.numbered, toRow, Audit.toRow, Keyed.ofList, titleColumn,
        Row.idColumn, Row.versionColumn, Audit.createdColumn, Audit.editedColumn,
        Audit.creatorColumn, Audit.editorColumn, Audit.deletedColumn]
  have htitle : Row.text (Memory.versioned id version (toRow d)) titleColumn = .ok d.title := by
    apply Row.text_of_value
    simp [Memory.versioned, Memory.numbered, toRow, titleColumn, Row.idColumn, Row.versionColumn]
  simp only [ofRow, haudit, htitle, bind, Except.bind, pure, Except.pure]

instance : LawfulVersions Document where
  hasVersion := hasVersion
  ofRow_versioned := ofRow_versioned
  id_set _ _ _ := rfl
  version_set _ _ _ := rfl
  withId_id _ := rfl

end Document

end RecordQuery
