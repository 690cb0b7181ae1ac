import RecordQuery.Proofs.Data.Except
import RecordQuery.Proofs.Entity.Versions

namespace RecordQuery

class LawfulReading (E : Type) [Entity E] : Prop where
  id_of_row {row : Row} {a : E} (h : Entity.ofRow row = .ok a) :
    Row.int row Row.idColumn = .ok (Entity.id a)
  version_of_row {row : Row} {a : E} (h : Entity.ofRow row = .ok a) :
    Row.int? row Row.versionColumn = .ok (Entity.version a)

class LawfulAudit (E : Type) [Audited E] : Prop extends LawfulVersions E where
  id_audit (a : E) : Entity.id a = (Audited.audit a).id
  version_audit (a : E) : Entity.version a = some (Audited.audit a).version
  audit_withAudit (a : E) (x : Audit) : Audited.audit (Audited.withAudit a x) = x
  audit_versioned (a : E) (id version : Int64) :
    Audited.audit (Entity.withVersion (Entity.withId a id) version) =
      { Audited.audit a with id := id, version := version }
  audit_of_row {row : Row} {a : E} (h : Entity.ofRow row = .ok a) :
    Audit.ofRow row = .ok (Audited.audit a)

theorem Row.int?_of_int {row : Row} {column : String} {n : Int64} (h : int row column = .ok n) :
    int? row column = .ok (some n) := by
  unfold int read at h
  unfold int?
  split at h
  · rename_i m hread
    rw [hread, Except.ok.inj h]
  · cases h
  · cases h

structure Audit.Reads (row : Row) (x : Audit) : Prop where
  id : Row.int row Row.idColumn = .ok x.id
  created : Row.time row createdColumn = .ok x.created
  edited : Row.time row editedColumn = .ok x.edited
  creator : Row.int? row creatorColumn = .ok x.creator
  editor : Row.int? row editorColumn = .ok x.editor
  version : Row.int row Row.versionColumn = .ok x.version
  deleted : ∃ deleted, Row.bool? row deletedColumn = .ok deleted ∧ x.deleted = deleted.getD false

theorem Audit.reads_of_ofRow {row : Row} {x : Audit} (h : ofRow row = .ok x) : Reads row x := by
  simp only [ofRow, bind_eq_ok, pure, Except.pure, Except.ok.injEq] at h
  obtain ⟨id, hid, created, hcreated, edited, hedited, creator, hcreator, editor, heditor, version,
    hversion, deleted, hdeleted, rfl⟩ := h
  exact ⟨hid, hcreated, hedited, hcreator, heditor, hversion, deleted, hdeleted, rfl⟩

instance {E : Type} [Audited E] [LawfulAudit E] : LawfulReading E where
  id_of_row {row a} h := by
    rw [LawfulAudit.id_audit a]
    exact (Audit.reads_of_ofRow (LawfulAudit.audit_of_row h)).id
  version_of_row {row a} h := by
    rw [LawfulAudit.version_audit a]
    exact Row.int?_of_int (Audit.reads_of_ofRow (LawfulAudit.audit_of_row h)).version

theorem Document.audit_of_row {row : Row} {d : Document} (h : ofRow row = .ok d) :
    Audit.ofRow row = .ok d.audit := by
  simp only [ofRow, bind_eq_ok, pure, Except.pure, Except.ok.injEq] at h
  obtain ⟨audit, haudit, title, -, rfl⟩ := h
  exact haudit

instance : LawfulAudit Document where
  id_audit _ := rfl
  version_audit _ := rfl
  audit_withAudit _ _ := rfl
  audit_versioned _ _ _ := rfl
  audit_of_row := Document.audit_of_row

end RecordQuery
