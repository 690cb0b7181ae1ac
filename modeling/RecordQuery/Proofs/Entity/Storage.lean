import RecordQuery.Proofs.Database.Writing
import RecordQuery.Proofs.Entity.Reading

namespace RecordQuery

class LawfulStorage (E : Type) [Audited E] : Prop extends LawfulAudit E where
  created_toRow (a : E) :
    (Entity.toRow a).get? Audit.createdColumn = some (.time (Audited.audit a).created)
  edited_toRow (a : E) :
    (Entity.toRow a).get? Audit.editedColumn = some (.time (Audited.audit a).edited)
  ofRow_alike (a : E) {row other : Row}
    (h : ∀ name, (Entity.toRow a).contains name → (row.value name).ReadsAs (other.value name))
    {b : E} (hread : Entity.ofRow row = .ok b) : Entity.ofRow other = .ok b

namespace Row

variable {row other : Row} {column : String}

theorem read?_eq_ok {α : Type} {view : Value → Option α} {kind : Kind} {x : Option α} :
    read? view kind row column = .ok x ↔
      if (row.value column).isNull then x = none else x.isSome ∧ view (row.value column) = x := by
  unfold read?
  split
  · rename_i hnull
    simp [hnull, Value.isNull, eq_comm]
  · rename_i hnull
    have hgiven : (row.value column).isNull = false := by
      cases hv : row.value column <;> first | rfl | exact absurd hv hnull
    rw [hgiven, if_neg Bool.false_ne_true]
    cases hview : view (row.value column) with
    | none => cases x <;> simp
    | some a => cases x <;> simp

theorem read?_alike {α : Type} {view : Value → Option α} {kind : Kind}
    (hnull : (row.value column).isNull = (other.value column).isNull)
    (hview : view (row.value column) = view (other.value column)) {x : Option α}
    (h : read? view kind row column = .ok x) : read? view kind other column = .ok x := by
  rw [read?_eq_ok] at h ⊢
  rwa [← hnull, ← hview]

theorem read_eq_ok {α : Type} {view : Value → Option α} {kind : Kind} {x : α} :
    read view kind row column = .ok x ↔
      (row.value column).isNull = false ∧ view (row.value column) = some x := by
  have hread : read view kind row column = .ok x ↔ read? view kind row column = .ok (some x) := by
    unfold read
    split <;> simp_all
  rw [hread, read?_eq_ok]
  cases (row.value column).isNull <;> simp

theorem read_alike {α : Type} {view : Value → Option α} {kind : Kind}
    (hnull : (row.value column).isNull = (other.value column).isNull)
    (hview : view (row.value column) = view (other.value column)) {x : α}
    (h : read view kind row column = .ok x) : read view kind other column = .ok x := by
  rw [read_eq_ok] at h ⊢
  rwa [← hnull, ← hview]

variable (h : (row.value column).ReadsAs (other.value column))

include h

theorem int_alike {n : Int64} (hread : int row column = .ok n) : int other column = .ok n :=
  read_alike h.null h.int hread

theorem int?_alike {n : Option Int64} (hread : int? row column = .ok n) :
    int? other column = .ok n :=
  read?_alike h.null h.int hread

theorem bool?_alike {b : Option Bool} (hread : bool? row column = .ok b) :
    bool? other column = .ok b :=
  read?_alike h.null h.bool hread

theorem time_alike {t : Time.Instant} (hread : time row column = .ok t) :
    time other column = .ok t :=
  read_alike h.null h.time hread

theorem text_alike {s : String} (hread : text row column = .ok s) : text other column = .ok s := by
  refine read_alike h.null (h.text fun t htime => ?_) hread
  have htext := (read_eq_ok.mp hread).2
  rw [htime] at htext
  cases htext

end Row

namespace Audit

def columns : List String :=
  [Row.idColumn, createdColumn, editedColumn, creatorColumn, editorColumn, Row.versionColumn,
    deletedColumn]

theorem ofRow_alike {row other : Row}
    (h : ∀ name ∈ columns, (row.value name).ReadsAs (other.value name)) {a : Audit}
    (hread : ofRow row = .ok a) : ofRow other = .ok a := by
  simp only [columns, List.forall_mem_cons] at h
  obtain ⟨hid, hcreated, hedited, hcreator, heditor, hversion, hdeleted, -⟩ := h
  have hreads := reads_of_ofRow hread
  obtain ⟨deleted, hmark, hdefault⟩ := hreads.deleted
  rw [ofRow, Row.int_alike hid hreads.id, Row.time_alike hcreated hreads.created,
    Row.time_alike hedited hreads.edited, Row.int?_alike hcreator hreads.creator,
    Row.int?_alike heditor hreads.editor, Row.int_alike hversion hreads.version,
    Row.bool?_alike hdeleted hmark]
  simp only [bind, Except.bind, pure, Except.pure, ← hdefault]

theorem contains_toRow (a : Audit) {name : String} (h : name ∈ columns) :
    (toRow a).contains name = true := by
  simp only [columns, List.mem_cons, List.not_mem_nil, or_false] at h
  rcases h with rfl | rfl | rfl | rfl | rfl | rfl | rfl <;>
    simp [toRow, Keyed.ofList, Keyed.contains, Row.idColumn, Row.versionColumn, createdColumn,
      editedColumn, creatorColumn, editorColumn, deletedColumn]

end Audit

namespace Document

theorem get?_toRow (d : Document) (name : String) :
    (toRow d).get? name = if name = titleColumn then some (.text d.title)
      else d.audit.toRow.get? name :=
  Keyed.get?_put ..

instance : LawfulStorage Document where
  created_toRow d := by
    refine (get?_toRow d _).trans ?_
    simp [Audit.toRow, Keyed.ofList, titleColumn, Row.versionColumn, Audit.deletedColumn,
      Audit.createdColumn, Audit.editedColumn, Audit.creatorColumn, Audit.editorColumn,
      Audited.audit]
  edited_toRow d := by
    refine (get?_toRow d _).trans ?_
    simp [Audit.toRow, Keyed.ofList, titleColumn, Row.versionColumn, Audit.deletedColumn,
      Audit.editedColumn, Audit.creatorColumn, Audit.editorColumn, Audited.audit]
  ofRow_alike d row other h b hread := by
    change ofRow row = .ok b at hread
    simp only [ofRow, bind_eq_ok, pure, Except.pure, Except.ok.injEq] at hread
    obtain ⟨audit, haudit, title, htitle, rfl⟩ := hread
    have hcontains : ∀ name, name = titleColumn ∨ name ∈ Audit.columns →
        (Entity.toRow d).contains name = true := by
      intro name hname
      change ((toRow d).get? name).isSome = true
      rw [get?_toRow]
      split
      · rfl
      · exact d.audit.contains_toRow (hname.resolve_left ‹_›)
    have haudit := Audit.ofRow_alike (fun name hname => h name (hcontains name (.inr hname))) haudit
    have htitle := Row.text_alike (h titleColumn (hcontains _ (.inl rfl))) htitle
    change ofRow other = _
    rw [ofRow, haudit, htitle]
    rfl

end Document

end RecordQuery
