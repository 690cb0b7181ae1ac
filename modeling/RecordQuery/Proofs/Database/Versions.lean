import RecordQuery.Proofs.Database.Contents

namespace RecordQuery.Database

structure Layout.Versioned (l : Layout) : Prop extends Layout.Regular l where
  version : ∃ c ∈ l.columns, c.name = Row.versionColumn ∧ c.affinity ≠ .text
  countersApart : folded l.name ≠ folded counters.name

def Layout.Spells (l : Layout) (row : Row) : Prop :=
  ∀ name v, row.get? name = some v →
    l.Exact name ∧ (l.place? name = some .number → name = Row.idColumn)

def Cell.int? : Cell → Option Int64
  | .int n => some n
  | _ => none

theorem Cell.int?_eq_some {c : Cell} {n : Int64} : c.int? = some n ↔ c = .int n := by
  cases c <;> simp [int?]

namespace Layout

variable {l : Layout} {row : Row} {v : Int64}

theorem Versioned.exact_version (hl : l.Versioned) : l.Exact Row.versionColumn := by
  obtain ⟨c, hc, hname, -⟩ := hl.version
  intro d hplace
  rw [← hname, hl.place?_column hc] at hplace
  cases hplace
  exact hname

theorem Versioned.cellOf_filled (hl : l.Versioned)
    (hrow : row.get? Row.versionColumn = some (.int v)) (n : Int64) (rest : Column → Cell) :
    cellOf l ⟨n, l.filled row rest⟩ (.field Row.versionColumn) = .int v := by
  obtain ⟨c, hc, hname, haffinity⟩ := hl.version
  rw [← hname, hl.cellOf_column hc, hl.column_filled hc, hname, hrow]
  exact Affinity.keep_int haffinity v

theorem Regular.spells (hl : l.Regular)
    (h : ∀ name v, row.get? name = some v → name ∈ l.names) : l.Spells row := by
  intro name v hv
  rcases hl.mem_names.mp (h name v hv) with rfl | ⟨c, hc, rfl⟩
  · refine ⟨fun c hplace => ?_, fun _ => rfl⟩
    rw [hl.place?_id] at hplace
    cases hplace
  · rw [Exact, hl.place?_column hc]
    exact ⟨by rintro d ⟨⟩; rfl, nofun⟩

theorem Spells.bare (h : l.Spells row) {name : String} {w : Value}
    (hw : (bare row).get? name = some w) : l.Exact name ∧ l.place? name ≠ some .number := by
  obtain ⟨hrow, hid, -⟩ := get?_of_bare hw
  exact ⟨(h name w hrow).1, mt (h name w hrow).2 hid⟩

end Layout

namespace Table

def version? (t : Table) (id : Int64) : Option Int64 :=
  (t.records.get? id).bind fun record =>
    (cellOf t.layout ⟨id, record⟩ (.field Row.versionColumn)).int?

def AllVersioned (t : Table) : Prop :=
  ∀ id record, t.records.get? id = some record → (t.version? id).isSome = true

structure Writes (before after : Table) (id v : Int64) : Prop where
  layout : after.layout = before.layout
  here : after.version? id = some v
  elsewhere : ∀ i, i ≠ id → after.records.get? i = before.records.get? i

variable {t after : Table} {id v n : Int64} {row : Row}

theorem version?_of_mem {e : Entry} (he : e ∈ t.entries) :
    t.version? e.number = (cellOf t.layout e (.field Row.versionColumn)).int? := by
  rw [version?, mem_entries.mp he]
  rfl

theorem version?_eq_some {record : Record} (hrecord : t.records.get? id = some record) :
    t.version? id = some v ↔ cellOf t.layout ⟨id, record⟩ (.field Row.versionColumn) = .int v := by
  rw [version?, hrecord]
  exact Cell.int?_eq_some

theorem AllVersioned.cell (h : t.AllVersioned) {record : Record}
    (hrecord : t.records.get? id = some record) :
    ∃ n, cellOf t.layout ⟨id, record⟩ (.field Row.versionColumn) = .int n := by
  obtain ⟨n, hn⟩ := Option.isSome_iff_exists.mp (h id record hrecord)
  exact ⟨n, (version?_eq_some hrecord).mp hn⟩

theorem mem_of_version? (h : t.version? id = some v) : ∃ e ∈ t.entries, e.number = id := by
  obtain ⟨record, hrecord, -⟩ := Option.bind_eq_some_iff.mp h
  exact ⟨⟨id, record⟩, mem_entries.mpr hrecord, rfl⟩

theorem writes_put {record : Record}
    (h : cellOf t.layout ⟨n, record⟩ (.field Row.versionColumn) = .int v) :
    t.Writes (t.put ⟨n, record⟩) n v := by
  have hget : ∀ i, (t.put ⟨n, record⟩).records.get? i =
      if i = n then some record else t.records.get? i := fun i => Keyed.get?_put ..
  refine ⟨rfl, ?_, fun i hi => (hget i).trans (if_neg hi)⟩
  rw [version?, hget, if_pos rfl]
  exact Cell.int?_eq_some.mpr h

theorem Writes.version? (h : t.Writes after id v) (i : Int64) :
    after.version? i = if i = id then some v else t.version? i := by
  split
  · rename_i hi
    rw [hi, h.here]
  · rename_i hi
    rw [Table.version?, h.elsewhere i hi, h.layout]
    rfl

theorem Writes.allVersioned (h : t.Writes after id v) (ht : t.AllVersioned) :
    after.AllVersioned := by
  intro i record hrecord
  rw [h.version? i]
  split
  · rfl
  · rename_i hi
    exact ht i record (h.elsewhere i hi ▸ hrecord)

theorem insert_version (hl : t.layout.Versioned) (hrow : ∀ x ∈ row.entries, t.layout.Exact x.1)
    (hversion : row.get? Row.versionColumn = some (.int v)) {as : String} {counter : Int64}
    {draws : List Int64} (h : t.insert as counter draws (Relational.cellsOf row) = .ok (n, after)) :
    t.Writes after n v := by
  obtain ⟨-, -, rfl⟩ := insert_cellsOf hl.toRegular hrow h
  exact writes_put (hl.cellOf_filled hversion n _)

theorem satisfies_guard (hl : t.layout.Versioned) (ht : t.AllVersioned) {e : Entry}
    (he : e ∈ t.entries) : satisfies t.layout e (Session.aim id (some v)) = true ↔
      e.number = id ∧ t.version? e.number = some v := by
  have hkind : (some v).isSome → ∃ c ∈ t.layout.columns, c.name = Row.versionColumn ∧
      c.affinity ≠ .text ∧ (e.column c = .null ∨ ∃ n, e.column c = .int n) := by
    intro _
    obtain ⟨c, hc, hname, haffinity⟩ := hl.version
    obtain ⟨n, hn⟩ := ht.cell (mem_entries.mp he)
    rw [← hname, hl.cellOf_column hc] at hn
    exact ⟨c, hc, hname, haffinity, .inr ⟨n, hn⟩⟩
  rw [satisfies_aim hl.toRegular hkind, version?_of_mem he, Cell.int?_eq_some]
  simp

theorem update_guard (hl : t.layout.Versioned) (ht : t.AllVersioned) (hrow : t.layout.Spells row)
    (hbelow : v = Int64.maxValue → t.version? id ≠ some Int64.maxValue) {done : Bool}
    (h : t.update (Session.aim id (some v)) (some Row.versionColumn) (Relational.assigned row) =
      .ok (done, after)) :
    (t.version? id ≠ some v ∧ done = false ∧ after = t) ∨
      t.version? id = some v ∧ done = true ∧ t.Writes after id (v + 1) := by
  obtain ⟨-, ⟨rfl, rfl, hnone⟩ | ⟨rfl, e, he, hsat, hreplace⟩⟩ := update_eq_ok h
  · refine .inl ⟨fun hversion => ?_, rfl, rfl⟩
    obtain ⟨e, he, rfl⟩ := mem_of_version? hversion
    exact hnone e he ((satisfies_guard hl ht he).mpr ⟨rfl, hversion⟩)
  · obtain ⟨rfl, hversion⟩ := (satisfies_guard hl ht he).mp hsat
    have hexpected : some v ≠ some Int64.maxValue := by
      rintro ⟨⟩
      exact hbelow rfl hversion
    have hcell : ∀ m, some v = some m →
        cellOf t.layout e (.field Row.versionColumn) = .int m := by
      rintro m ⟨⟩
      rw [version?_of_mem he] at hversion
      exact Cell.int?_eq_some.mp hversion
    obtain rfl := replace_raised hl.toRegular hl.exact_version
      (fun _ _ => hrow.bare) hexpected hcell
      hreplace
    have hrenewed : (renewed row (some v)).get? Row.versionColumn = some (.int (v + 1)) := by
      rw [renewed, Keyed.get?_put, if_pos rfl]
    exact .inr ⟨hversion, rfl, writes_put (hl.cellOf_filled hrenewed _ _)⟩

end Table

namespace Contents

def version? (c : Contents) (name : String) (id : Int64) : Option Int64 :=
  (c.tables.get? (folded name)).bind (·.version? id)

structure Has (l : Layout) (t : Table) (c : Contents) : Prop where
  table : c.tables.get? (folded l.name) = some t
  layout : t.layout = l
  own : ∀ k, c.tables.get? counters.name = some k → k.layout = counters

variable {l : Layout} {t u : Table} {c : Contents} {name : String}

theorem Has.table? (h : c.Has l t) (hname : folded name = folded l.name) :
    c.table? name = .ok t := by
  rw [Contents.table?, hname, h.table]

theorem Has.version? (h : c.Has l t) (id : Int64) : c.version? l.name id = t.version? id := by
  rw [Contents.version?, h.table]
  rfl

theorem Has.record? (h : c.Has l t) (id : Int64) : c.record? l.name id = t.records.get? id := by
  rw [Contents.record?, h.table]
  rfl

theorem Has.put (h : c.Has l t) (hl : folded l.name ≠ folded counters.name) (hu : u.layout = l) :
    (c.put u).Has l u := by
  refine ⟨?_, hu, ?_⟩
  · rw [get?_put, hu, if_pos rfl]
  · intro k hk
    rw [get?_put, if_neg] at hk
    · exact h.own k hk
    · rw [hu]
      exact fun heq => hl heq.symm

theorem Has.raiseCounter (h : c.Has l t) (hl : folded l.name ≠ folded counters.name)
    (name : String) (number : Int64) : (c.raiseCounter name number).Has l t := by
  rcases c.raiseCounter_cases name number with hsame | ⟨k, written, hk, hwritten, hput⟩
  · rwa [hsame]
  · have hlayout : written.layout = counters := hwritten.trans (h.own k hk)
    rw [hput]
    refine ⟨?_, h.layout, ?_⟩
    · rw [get?_put, hlayout, if_neg hl]
      exact h.table
    · intro k' hk'
      rw [get?_put] at hk'
      split at hk'
      · exact Option.some.inj hk' ▸ hlayout
      · exact h.own k' hk'

end Contents

namespace Session

variable {l : Layout} {t : Table} {s after : Session} {name : String} {row : Row} {id v n : Int64}

theorem insert_version (hl : l.Versioned) (h : s.contents.Has l t)
    (hname : folded name = folded l.name) (hrow : ∀ x ∈ row.entries, l.Exact x.1)
    (hversion : row.get? Row.versionColumn = some (.int v))
    (hinsert : s.insert name (Relational.cellsOf row) = .ok (n, after)) :
    after.saved = s.saved ∧ ∃ u, after.contents.Has l u ∧ t.Writes u n v := by
  obtain ⟨t', u, ht', hwritten, hsaved, hcontents⟩ := insert_eq_ok hinsert
  obtain rfl := Except.ok.inj ((h.table? hname).symm.trans ht')
  obtain rfl := h.layout
  have hwrites := Table.insert_version hl hrow hversion hwritten
  have hput := h.put hl.countersApart hwrites.layout
  refine ⟨hsaved, u, ?_, hwrites⟩
  rw [hcontents]
  split
  · exact hput.raiseCounter hl.countersApart _ _
  · exact hput

theorem update_guard (hl : l.Versioned) (h : s.contents.Has l t) (ht : t.AllVersioned)
    (hname : folded name = folded l.name) (hrow : l.Spells row)
    (hbelow : v = Int64.maxValue → t.version? id ≠ some Int64.maxValue) {done : Bool}
    (hupdate : s.update name id (some v) (Relational.assigned row) = .ok (done, after)) :
    (t.version? id ≠ some v ∧ done = false ∧ after = s) ∨
      t.version? id = some v ∧ done = true ∧ after.saved = s.saved ∧
        ∃ u, after.contents.Has l u ∧ t.Writes u id (v + 1) := by
  obtain ⟨t', u, ht', hwritten, rfl⟩ := update_eq_ok hupdate
  obtain rfl := Except.ok.inj ((h.table? hname).symm.trans ht')
  obtain rfl := h.layout
  rcases Table.update_guard hl ht hrow hbelow hwritten with
    ⟨hversion, rfl, rfl⟩ | ⟨hversion, rfl, hwrites⟩
  · refine .inl ⟨hversion, rfl, ?_⟩
    have hsame : s.contents.put u = s.contents := by
      rw [Contents.put, Keyed.put_get? h.table]
    rw [hsame]
  · exact .inr ⟨hversion, rfl, rfl, u, h.put hl.countersApart hwrites.layout, hwrites⟩

theorem plain_of_update {expected : Option Int64} {cells : Cells} {result : Bool × Session}
    (h : s.update name id expected cells = .ok result) : '\x00' ∉ name.toList := by
  simp only [update, bind_eq_ok] at h
  obtain ⟨_, hname, -⟩ := h
  exact plain_of_checkName hname

end Session

end RecordQuery.Database
