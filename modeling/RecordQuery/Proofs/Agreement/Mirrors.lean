import RecordQuery.Proofs.Agreement.Values
import RecordQuery.Proofs.Database.Accepting
import RecordQuery.Proofs.Entity.Versions
import RecordQuery.Proofs.Store.VersionGuard

namespace RecordQuery

open RecordQuery.Database RecordQuery.Relational

theorem Row.value_eq_of_get? {row : Row} {name : String} {v : Value} (h : row.get? name = some v) :
    row.value name = v := by
  rw [Row.value, h]
  rfl

theorem Row.Kind.keep_ofValue {k : Row.Kind} {v : Value} (h : v.Fits k) :
    k.affinity.keep (.ofValue v) = .ofValue v := by
  rcases Value.fits_cases h with rfl | ⟨hk, n, hn⟩ | ⟨rfl, s, rfl⟩ | ⟨rfl, t, rfl, -⟩
  · cases k <;> rfl
  · rw [Value.ofValue_of_asInt hn]
    rcases hk with rfl | rfl <;> rfl
  · rfl
  · rfl

namespace Database.Layout

structure Serves (l : Layout) (kind : String → Row.Kind) : Prop extends l.Regular where
  plain : '\x00' ∉ l.name.toList
  plainColumns : ∀ c ∈ l.columns, '\x00' ∉ c.name.toList
  keeps : ∀ c ∈ l.columns, ∀ v : Value, v.Fits (kind c.name) →
    c.affinity.keep (.ofValue v) = .ofValue v
  version : ∀ c ∈ l.columns, folded c.name = folded Row.versionColumn →
    c.name = Row.versionColumn ∧ kind c.name = .integer
  countersApart : folded l.name ≠ folded counters.name

structure Mirrors (l : Layout) (kind : String → Row.Kind) (id : Int64) (row : Row)
    (record : Record) : Prop where
  number : row.value Row.idColumn = .int id
  names : ∀ name v, row.get? name = some v → name ∈ l.names
  cells : ∀ c ∈ l.columns, (Entry.mk id record).column c = .ofValue (row.value c.name)
  fits : ∀ c ∈ l.columns, (row.value c.name).Fits (kind c.name)

def MirrorsAll (l : Layout) (kind : String → Row.Kind) (m : Memory) (t : Table) : Prop :=
  ∀ id, Option.Rel (l.Mirrors kind id) (m.tables.row? l.name id) (t.records.get? id)

structure Gives (l : Layout) (kind : String → Row.Kind) (row : Row) : Prop where
  names : ∀ name v, row.get? name = some v → name ∈ l.names
  fits : ∀ c ∈ l.columns, ∃ v, row.get? c.name = some v ∧ v.Fits (kind c.name)

def HasVersion (l : Layout) : Prop := ∃ c ∈ l.columns, c.name = Row.versionColumn

variable {l : Layout} {kind : String → Row.Kind} {row stored : Row} {record : Record} {id : Int64}
  {expected : Option Int64} {c : Column}

theorem Gives.put (h : l.Gives kind row) {name : String} {v : Value} (hname : name ∈ l.names)
    (hv : ∀ c ∈ l.columns, c.name = name → v.Fits (kind c.name)) :
    l.Gives kind (row.put name v) := by
  refine ⟨?_, ?_⟩
  · intro other w hw
    rw [Keyed.get?_put] at hw
    split at hw
    · rename_i hother
      exact hother ▸ hname
    · exact h.names other w hw
  · intro c hc
    rw [Keyed.get?_put]
    split
    · rename_i hother
      exact ⟨v, rfl, hv c hc hother⟩
    · exact h.fits c hc

theorem Gives.mirrors (h : l.Gives kind row) (hid : row.get? Row.idColumn = some (.int id))
    (hcells : ∀ c ∈ l.columns, (Entry.mk id record).column c = .ofValue (row.value c.name)) :
    l.Mirrors kind id row record := by
  refine ⟨Row.value_eq_of_get? hid, h.names, hcells, fun c hc => ?_⟩
  obtain ⟨v, hv, hfits⟩ := h.fits c hc
  rwa [Row.value_eq_of_get? hv]

namespace Serves

variable (hl : l.Serves kind)

include hl

theorem exact_version : l.Exact Row.versionColumn := by
  intro c hplace
  obtain ⟨hc, hfolded⟩ := column_of_place? hplace
  exact (hl.version c hc hfolded.symm).1

theorem kind_version (hc : c ∈ l.columns) (hname : c.name = Row.versionColumn) :
    kind c.name = .integer :=
  (hl.version c hc (congrArg folded hname)).2

theorem affinity_version (hc : c ∈ l.columns) (hname : c.name = Row.versionColumn) :
    c.affinity ≠ .text := by
  have hfits : (Value.int 0).Fits (kind c.name) := by
    rw [hl.kind_version hc hname]
    trivial
  have hkeeps := hl.keeps c hc _ hfits
  intro htext
  rw [htext] at hkeeps
  cases hkeeps

theorem ne_id (hc : c ∈ l.columns) : c.name ≠ Row.idColumn :=
  fun hname => hl.apart c hc (congrArg folded hname)

theorem hasVersion_of_place? (h : l.place? Row.versionColumn ≠ none) : l.HasVersion := by
  cases hplace : l.place? Row.versionColumn with
  | none => exact absurd hplace h
  | some p =>
      cases p with
      | number => exact absurd hplace hl.version_ne_number
      | column c =>
          obtain ⟨hc, hfolded⟩ := column_of_place? hplace
          exact ⟨c, hc, (hl.version c hc hfolded.symm).1⟩

theorem value_version_of_not (hversion : ¬l.HasVersion)
    (hrow : ∀ name v, row.get? name = some v → name ∈ l.names) :
    row.value Row.versionColumn = .null := by
  cases hv : row.get? Row.versionColumn with
  | none =>
      rw [Row.value, hv]
      rfl
  | some v => exact absurd (hl.hasVersion_of_place? (hl.place?_of_mem (hrow _ v hv))) hversion

theorem gives_raisedRow (h : l.Gives kind row) (hversion : expected.isSome → l.HasVersion)
    (id : Int64) : l.Gives kind (raisedRow id row expected) := by
  have hnumbered : l.Gives kind (row.put Row.idColumn (.int id)) :=
    h.put (hl.mem_names.mpr (.inl rfl)) fun c hc hname => absurd hname (hl.ne_id hc)
  cases expected with
  | none => exact hnumbered
  | some m =>
      obtain ⟨c, hc, hname⟩ := hversion rfl
      refine hnumbered.put (hl.mem_names.mpr (.inr ⟨c, hc, hname⟩)) fun d hd hname' => ?_
      rw [hl.kind_version hd hname']
      trivial

theorem mirrors_filled (h : l.Gives kind row) (hid : row.get? Row.idColumn = some (.int id))
    (rest : Column → Cell) : l.Mirrors kind id row (l.filled row rest) := by
  refine h.mirrors hid fun c hc => ?_
  obtain ⟨v, hv, hfits⟩ := h.fits c hc
  rw [hl.column_filled hc, hv, Row.value_eq_of_get? hv]
  exact hl.keeps c hc v hfits

end Serves

theorem HasVersion.exists_affinity (h : l.HasVersion) (hl : l.Serves kind) :
    ∃ c ∈ l.columns, c.name = Row.versionColumn ∧ c.affinity ≠ .text := by
  obtain ⟨c, hc, hname⟩ := h
  exact ⟨c, hc, hname, hl.affinity_version hc hname⟩

namespace Mirrors

variable (h : l.Mirrors kind id stored record)

include h

theorem keep_column (hl : l.Serves kind) (hc : c ∈ l.columns) :
    c.affinity.keep ((Entry.mk id record).column c) = (Entry.mk id record).column c := by
  rw [h.cells c hc]
  exact hl.keeps c hc _ (h.fits c hc)

theorem version_cases (hl : l.Serves kind) (hc : c ∈ l.columns)
    (hname : c.name = Row.versionColumn) :
    ∃ n, stored.value Row.versionColumn = .ofOption .int n ∧
      (Entry.mk id record).column c = .ofValue (.ofOption .int n) := by
  have hcell := h.cells c hc
  have hfits := h.fits c hc
  rw [hl.kind_version hc hname] at hfits
  rw [hname] at hcell hfits
  cases hv : stored.value Row.versionColumn with
  | null =>
      rw [hv] at hcell
      exact ⟨none, rfl, hcell⟩
  | int n =>
      rw [hv] at hcell
      exact ⟨some n, rfl, hcell⟩
  | bool b =>
      rw [hv] at hfits
      exact hfits.elim
  | text s =>
      rw [hv] at hfits
      exact hfits.elim
  | time t =>
      rw [hv] at hfits
      exact hfits.elim

theorem int?_version (hl : l.Serves kind) (hversion : l.HasVersion) :
    Row.int? stored Row.versionColumn =
      .ok (cellOf l ⟨id, record⟩ (.field Row.versionColumn)).int? := by
  obtain ⟨c, hc, hname⟩ := hversion
  obtain ⟨n, hvalue, hcell⟩ := h.version_cases hl hc hname
  rw [Row.int?_of_value hvalue, ← hname, hl.cellOf_column hc, hcell]
  cases n <;> rfl

theorem filled_renewed (hl : l.Serves kind) (hrow : l.Gives kind row)
    (hsame : expected = none → stored.value Row.versionColumn = row.value Row.versionColumn)
    (rest : Column → Cell) :
    l.filled (renewed row expected) (Entry.mk id record).column =
      l.filled (raisedRow id row expected) rest := by
  refine record_congr fun c hc => ?_
  obtain ⟨v, hv, -⟩ := hrow.fits c hc
  have hid := hl.ne_id hc
  -- the version is not assigned, it is raised if one is expected and else stays what it was
  by_cases hname : c.name = Row.versionColumn
  · cases expected with
    | none =>
        have hcell := h.cells c hc
        rw [hname, hsame rfl, ← hname, Row.value_eq_of_get? hv] at hcell
        rw [renewed, bare, Keyed.get?_erase, if_pos hname, raisedRow, Keyed.get?_put, if_neg hid,
          hv]
        exact hcell
    | some m =>
        rw [renewed, raisedRow, Keyed.get?_put, Keyed.get?_put, if_pos hname, if_pos hname]
        rfl
  · cases expected with
    | none =>
        rw [renewed, get?_bare hid hname, raisedRow, Keyed.get?_put, if_neg hid, hv]
        rfl
    | some m =>
        rw [renewed, raisedRow, Keyed.get?_put, Keyed.get?_put, if_neg hname, if_neg hname,
          get?_bare hid hname, Keyed.get?_put, if_neg hid, hv]
        rfl

end Mirrors

namespace MirrorsAll

variable {m : Memory} {t : Table} (h : l.MirrorsAll kind m t)

include h

theorem row_and_record (id : Int64) :
    (m.tables.row? l.name id = none ∧ t.records.get? id = none) ∨ ∃ stored record,
      m.tables.row? l.name id = some stored ∧ t.records.get? id = some record ∧
        l.Mirrors kind id stored record := by
  have hid := h id
  generalize m.tables.row? l.name id = row?, t.records.get? id = record? at hid
  cases hid with
  | none => exact .inl ⟨rfl, rfl⟩
  | some hmirrors => exact .inr ⟨_, _, rfl, rfl, hmirrors⟩

theorem exists_row (hrecord : t.records.get? id = some record) :
    ∃ stored, m.tables.row? l.name id = some stored ∧ l.Mirrors kind id stored record := by
  rcases h.row_and_record id with ⟨-, hnone⟩ | ⟨stored, other, hrow, hother, hmirrors⟩
  · rw [hrecord] at hnone
    cases hnone
  · obtain rfl := Option.some.inj (hrecord.symm.trans hother)
    exact ⟨stored, hrow, hmirrors⟩

theorem exists_record (hrow : m.tables.row? l.name id = some stored) :
    ∃ record, t.records.get? id = some record ∧ l.Mirrors kind id stored record := by
  rcases h.row_and_record id with ⟨hnone, -⟩ | ⟨other, record, hother, hrecord, hmirrors⟩
  · rw [hrow] at hnone
    cases hnone
  · obtain rfl := Option.some.inj (hrow.symm.trans hother)
    exact ⟨record, hrecord, hmirrors⟩

theorem versionAt_eq (hl : l.Serves kind) (hversion : l.HasVersion) (ht : t.layout = l)
    (id : Int64) : Memory.versionAt l.name id m = .ok (t.version? id) := by
  subst ht
  rcases h.row_and_record id with ⟨hnone, hrecord⟩ | ⟨stored, record, hrow, hrecord, hmirrors⟩
  · rw [Memory.versionAt, hnone, Table.version?, hrecord]
    rfl
  · rw [Memory.versionAt_of_row? hrow, hmirrors.int?_version hl hversion, Table.version?, hrecord]
    rfl

theorem write {answer : Row} {u : Table} {m' : Memory} (hanswer : l.Mirrors kind id answer record)
    (hm : ∀ i, m'.tables.row? l.name i = if i = id then some answer else m.tables.row? l.name i)
    (hu : ∀ i, u.records.get? i = if i = id then some record else t.records.get? i) :
    l.MirrorsAll kind m' u := by
  intro i
  rw [hm, hu]
  split
  · rename_i hi
    exact .some (hi ▸ hanswer)
  · exact h i

theorem version_kinds (hl : l.Serves kind) (hversion : l.HasVersion) (ht : t.layout = l) :
    ∃ c ∈ t.layout.columns, c.name = Row.versionColumn ∧ c.affinity ≠ .text ∧
      ∀ e ∈ t.entries, e.column c = .null ∨ ∃ n, e.column c = .int n := by
  subst ht
  obtain ⟨c, hc, hname, haffinity⟩ := hversion.exists_affinity hl
  refine ⟨c, hc, hname, haffinity, fun e he => ?_⟩
  obtain ⟨stored, -, hmirrors⟩ := h.exists_row (Table.mem_entries.mp he)
  obtain ⟨n, -, hcell⟩ := hmirrors.version_cases hl hc hname
  cases n with
  | none => exact .inl hcell
  | some n => exact .inr ⟨n, hcell⟩

end MirrorsAll

theorem Serves.plain_assigned (hl : l.Serves kind) (h : l.Gives kind row) :
    ∀ x ∈ assigned row, '\x00' ∉ x.1.toList := by
  have hbare : ∀ name v, (bare row).get? name = some v → name ∈ l.names :=
    fun name v hv => h.names name v (get?_of_bare hv).1
  exact hl.toRegular.plain_cellsOf hl.plainColumns hbare

theorem isEmpty_cellsOf {name : String} {v : Value} (h : row.get? name = some v) :
    (cellsOf row).isEmpty = false := by
  have hmem := Keyed.mem_entries_iff.mpr h
  rw [cellsOf, List.isEmpty_map, List.isEmpty_eq_false_iff]
  exact List.ne_nil_of_mem hmem

theorem Gives.name_eq_version (h : l.Gives kind row) (hl : l.Serves kind)
    (hnothing : (assigned row).isEmpty = true) (hc : c ∈ l.columns) :
    c.name = Row.versionColumn := by
  by_contra hname
  obtain ⟨v, hv, -⟩ := h.fits c hc
  rw [← get?_bare (hl.ne_id hc) hname] at hv
  rw [show assigned row = cellsOf (bare row) from rfl, isEmpty_cellsOf hv] at hnothing
  cases hnothing

end Database.Layout

end RecordQuery
