import RecordQuery.Proofs.Agreement.Mirrors
import RecordQuery.Proofs.Database.Numbering
import RecordQuery.Proofs.Store.Storing

namespace RecordQuery

open RecordQuery.Database RecordQuery.Relational

theorem Database.Cell.clipped_storageForm {v : Value} :
    clipped v.storageForm = v.storageForm ↔ ∀ text, v = .text text → '\x00' ∉ text.toList := by
  cases v with
  | text s => simp [Value.storageForm, clipped, clip_eq_self]
  | time t => simp [Value.storageForm, clipped, clip_eq_self, t.zero_not_mem_stored]
  | null | bool _ | int _ => simp [Value.storageForm, clipped]

def Row.NamesColumn (row : Row) : Prop := ∃ name, name ≠ Row.idColumn ∧ row.contains name

def Row.ZeroFree (row : Row) : Prop :=
  ∀ name text, row.get? name = some (.text text) → name ≠ Row.idColumn → name ≠ Row.versionColumn →
    '\x00' ∉ text.toList

namespace Database.Layout

structure Open (l : Layout) : Prop extends l.Regular where
  plain : '\x00' ∉ l.name.toList
  plainColumns : ∀ c ∈ l.columns, '\x00' ∉ c.name.toList
  free : ∀ c ∈ l.columns, c.required = false ∧ c.unique = false
  initial : ∀ c ∈ l.columns, ∃ v, (c.affinity.keep c.initial).value? = .ok v
  version : ∀ c ∈ l.columns, c.name = Row.versionColumn → c.affinity ≠ .text
  countersApart : folded l.name ≠ folded counters.name

structure Assigns (l : Layout) (row : Row) : Prop where
  names : ∀ name v, row.get? name = some v → name ∈ l.names
  kept : ∀ c ∈ l.columns, c.name ≠ Row.versionColumn → ∀ v, row.get? c.name = some v →
    c.affinity.keep (.ofValue v) = .ofValue v

end Database.Layout

namespace Relational

def newRow (row : Row) (n : Int64) : Row := (initialRow row).put Row.idColumn (.int n)

def sentRow (row : Row) : Row := withoutId (initialRow row)

variable {row : Row} {name : String}

theorem get?_sentRow (row : Row) (name : String) : (sentRow row).get? name =
    if name = Row.idColumn then none
    else if name = Row.versionColumn then (row.get? name).map fun _ => .int 0
    else row.get? name := by
  rw [sentRow, withoutId, Keyed.get?_erase, get?_initialRow]

theorem isSome_sentRow : ((sentRow row).get? name).isSome ↔
    name ≠ Row.idColumn ∧ row.contains name := by
  rw [get?_sentRow, Keyed.contains]
  by_cases hid : name = Row.idColumn
  · simp [hid]
  · rw [if_neg hid]
    split <;> simp [hid]

theorem isEmpty_sentRow : (cellsOf (sentRow row)).isEmpty = false ↔ row.NamesColumn := by
  constructor
  · intro h
    rw [cellsOf, List.isEmpty_map, List.isEmpty_eq_false_iff_exists_mem] at h
    obtain ⟨x, hx⟩ := h
    have hsome := Option.isSome_of_mem (Keyed.mem_entries_iff.mp hx)
    exact ⟨x.1, isSome_sentRow.mp hsome⟩
  · rintro ⟨name, hname⟩
    obtain ⟨v, hv⟩ := Option.isSome_iff_exists.mp (isSome_sentRow.mpr hname)
    exact Layout.isEmpty_cellsOf hv

end Relational

namespace Database.Layout

variable {l : Layout} {row : Row} {t : Table} {n : Int64}

theorem Assigns.names_sentRow (h : l.Assigns row) {name : String} {v : Value}
    (hv : (sentRow row).get? name = some v) : name ∈ l.names := by
  rw [get?_sentRow] at hv
  split at hv
  · cases hv
  · split at hv
    · obtain ⟨w, hw, -⟩ := Option.map_eq_some_iff.mp hv
      exact h.names name w hw
    · exact h.names name v hv

theorem Assigns.cellOf_filled (h : l.Assigns row) (hl : l.Open) (n : Int64) {name : String}
    {v : Value} (hv : (sentRow row).get? name = some v) :
    cellOf l ⟨n, l.filled (sentRow row) Column.initial⟩ (.field name) = .ofValue v := by
  have hid : name ≠ Row.idColumn := by
    rintro rfl
    rw [get?_sentRow, if_pos rfl] at hv
    cases hv
  obtain ⟨c, hc, rfl⟩ := (hl.mem_names.mp (h.names_sentRow hv)).resolve_left hid
  rw [hl.cellOf_column hc, hl.column_filled hc, hv]
  rw [get?_sentRow, if_neg hid] at hv
  split at hv
  · rename_i hversion
    obtain ⟨w, -, rfl⟩ := Option.map_eq_some_iff.mp hv
    exact Affinity.keep_int (hl.version c hc hversion) 0
  · rename_i hversion
    exact h.kept c hc hversion v hv

theorem Assigns.reads (h : l.Assigns row) (hl : l.Open) (n : Int64) {name : String}
    (hname : name ∈ l.names) :
    ∃ v, (cellOf l ⟨n, l.filled (sentRow row) Column.initial⟩ (.field name)).value? = .ok v := by
  rcases hl.mem_names.mp hname with rfl | ⟨c, hc, rfl⟩
  · exact ⟨_, congrArg Cell.value? (hl.cellOf_id _)⟩
  · cases hv : (sentRow row).get? c.name with
    | some v =>
        rw [h.cellOf_filled hl n hv]
        exact ⟨_, Cell.value?_ofValue v⟩
    | none =>
        rw [hl.cellOf_column hc, hl.column_filled hc, hv]
        exact hl.initial c hc

theorem Open.allows (hl : l.Open) (ht : t.layout = l) (e : Entry) : t.Allows e := by
  subst ht
  refine ⟨fun c hc hrequired => ?_, fun c hc hunique => ?_⟩
  · rw [(hl.free c hc).1] at hrequired
    cases hrequired
  · rw [(hl.free c hc).2] at hunique
    cases hunique

end Database.Layout

structure ReadBack (row : Row) (n : Int64) (found : Row) : Prop where
  id : found.get? Row.idColumn = some (.int n)
  version : row.contains Row.versionColumn → found.get? Row.versionColumn = some (.int 0)
  values : ∀ name v, row.get? name = some v → name ≠ Row.idColumn → name ≠ Row.versionColumn →
    found.get? name = some v.storageForm

structure InsertedAlike (l : Layout) (row : Row) (m : Memory) (s : Relational) : Prop where
  inMemory : (Memory.insert l.name row m).1 = .ok (newRow row (m.lastId + 1)) ∧
    (Memory.insert l.name row m).2.tables.row? l.name (m.lastId + 1) =
      some (newRow row (m.lastId + 1))
  inTable : ∃ n found, 0 < n ∧ s.session.contents.record? l.name n = none ∧
    (Relational.insert l.name row s).1 = .ok (newRow row n) ∧
    (Relational.find l.name n (Store.evict l.name n (Relational.insert l.name row s).2)).1 =
      .ok (some found) ∧ ReadBack row n found

theorem Memory.withVersionIfAny_put_id (row : Row) (id : Int64) :
    withVersionIfAny (row.put Row.idColumn (.int id)) 0 = newRow row id := by
  have hne : Row.versionColumn ≠ Row.idColumn := by decide
  change initialRow (row.put Row.idColumn (.int id)) = newRow row id
  ext name
  rw [newRow, get?_initialRow, Keyed.get?_put, Keyed.get?_put, get?_initialRow]
  by_cases hversion : name = Row.versionColumn
  · have hid : name ≠ Row.idColumn := hversion ▸ hne
    rw [if_neg hid, if_neg hid]
  · rw [if_neg hversion, if_neg hversion]

namespace Relational

variable {l : Layout} {t : Table} {s : Relational} {row : Row}

theorem insert_refused (hplain : '\x00' ∉ l.name.toList) (hnothing : ¬row.NamesColumn) :
    insert l.name row s = (.error (.sql (.insert l.name (.unexpected ")"))), s) := by
  have hempty : cellsOf (sentRow row) = [] := by
    rw [← isEmpty_sentRow, Bool.not_eq_false, List.isEmpty_iff] at hnothing
    exact hnothing
  unfold insert
  rw [← initialRow]
  simp only
  rw [← sentRow, hempty, Session.insert_nil hplain]
  rfl

theorem find_evicted (hl : l.Open) (ht : s.session.contents.Has l t) {n : Int64} {record : Record}
    (hrecord : t.records.get? n = some record)
    (hreads : ∀ name ∈ l.names, ∃ v, (cellOf l ⟨n, record⟩ (.field name)).value? = .ok v) :
    ∃ found, (find l.name n (Store.evict l.name n s)).1 = .ok (some found) ∧
      ∀ name ∈ l.names, ∀ v, (cellOf l ⟨n, record⟩ (.field name)).value? = .ok v →
        found.get? name = some v := by
  obtain rfl := ht.layout
  obtain ⟨found, hfound, hwhole, hvalues⟩ := rowOfCells_map hreads
  have hselect : s.session.select (byId t.layout.name .rows n) = .ok t :=
    table?_of_checks (checkSelect_byId hl.plain rfl n) (ht.table? rfl)
  have hrows : rowsOf t.layout.name (byId t.layout.name .rows n) s = .ok [found] := by
    rw [rowsOf_of_select hl.toRegular hselect, hrecord, Option.map_some, Option.toList_some,
      List.mapM_cons, List.mapM_nil, rowOf, rowCells, hfound]
    rfl
  have hevicted : (Store.evict t.layout.name n s).cache.row? t.layout.name n = none :=
    (Cache.row?_evict ..).trans (if_pos ⟨rfl, rfl⟩)
  refine ⟨found, congrArg Prod.fst (find_of_cons hevicted hrows), ?_⟩
  intro name hname v hv
  obtain ⟨w, hw⟩ := Option.isSome_iff_exists.mp (hwhole name hname)
  rw [hw, Except.ok.inj ((hvalues name w hw).2.symm.trans hv)]

section

variable (hl : l.Open) (ht : s.session.contents.Has l t) (hrow : l.Assigns row)
  (hroom : t.reached (s.session.contents.counter l.name) < Int64.maxValue)

include hl ht hrow hroom

theorem insert_accepted (hgiven : row.NamesColumn) :
    let n := t.reached (s.session.contents.counter l.name) + 1
    (insert l.name row s).1 = .ok (newRow row n) ∧ ∃ found,
      (find l.name n (Store.evict l.name n (insert l.name row s).2)).1 = .ok (some found) ∧
        found.get? Row.idColumn = some (.int n) ∧
        ∀ name v, (sentRow row).get? name = some v →
          found.get? name = some (Cell.clipped v.storageForm) := by
  intro n
  have hnames : ∀ name v, (sentRow row).get? name = some v → name ∈ l.names :=
    fun _ _ => hrow.names_sentRow
  have hid : (sentRow row).get? Row.idColumn = none := by rw [get?_sentRow, if_pos rfl]
  obtain rfl := ht.layout
  obtain ⟨contents, hcontents, hinsert⟩ := Session.insert_eq hl.plain
    (hl.toRegular.plain_cellsOf hl.plainColumns hnames) (isEmpty_sentRow.mpr hgiven)
    hl.countersApart ht
    (Table.insert_fresh hroom hl.toRegular hnames hid (hl.allows rfl _) t.layout.name) rfl
  let after : Relational :=
    { s with
      session := ⟨contents, s.session.saved⟩
      cache := s.cache.put t.layout.name n (newRow row n) }
  have hafter : insert t.layout.name row s = (.ok (newRow row n), after) := by
    unfold insert
    rw [← initialRow]
    simp only
    rw [← sentRow, hinsert]
    rfl
  have hthere : after.session.contents.Has t.layout _ := hcontents
  obtain ⟨found, hfound, hread⟩ := find_evicted hl hthere
    ((Keyed.get?_put ..).trans (if_pos rfl)) fun _ => hrow.reads hl n
  rw [hafter]
  refine ⟨rfl, found, hfound, ?_, ?_⟩
  · exact hread _ (hl.mem_names.mpr (.inl rfl)) _ (congrArg Cell.value? (hl.cellOf_id _))
  · intro name v hv
    refine hread name (hnames name v hv) _ ?_
    rw [hrow.cellOf_filled hl n hv, Cell.value?_ofValue]

end

end Relational

theorem readBack_iff {row found : Row} {n : Int64} (hid : found.get? Row.idColumn = some (.int n))
    (hsent : ∀ name v, (sentRow row).get? name = some v →
      found.get? name = some (Cell.clipped v.storageForm)) :
    ReadBack row n found ↔ row.ZeroFree := by
  have hne : Row.versionColumn ≠ Row.idColumn := by decide
  have hgiven : ∀ name v, row.get? name = some v → name ≠ Row.idColumn →
      name ≠ Row.versionColumn → found.get? name = some (Cell.clipped v.storageForm) := by
    intro name v hv hid hversion
    refine hsent name v ?_
    rw [get?_sentRow, if_neg hid, if_neg hversion, hv]
  constructor
  · intro h name text hv hid hversion
    have hsame := (hgiven name _ hv hid hversion).symm.trans (h.values name _ hv hid hversion)
    exact Cell.clipped_storageForm.mp (Option.some.inj hsame) text rfl
  · intro h
    refine ⟨hid, fun hversion => ?_, fun name v hv hid hversion => ?_⟩
    · obtain ⟨v, hv⟩ := Option.isSome_iff_exists.mp hversion
      refine hsent Row.versionColumn (.int 0) ?_
      rw [get?_sentRow, if_neg hne, if_pos rfl, hv]
      rfl
    · rw [hgiven name v hv hid hversion, Cell.clipped_storageForm.mpr]
      rintro text rfl
      exact h name text hv hid hversion

section

variable {l : Layout} {t : Table} {s : Relational} {row : Row}

theorem Memory.insert_accepted (entity : String) (row : Row) (m : Memory) :
    ((insert entity row m).1 = .ok (newRow row (m.lastId + 1)) ∧
      (insert entity row m).2.tables.row? entity (m.lastId + 1) =
        some (newRow row (m.lastId + 1))) ↔ m.lastId < Int64.maxValue := by
  rcases numberAfter_cases m.lastId with ⟨hroom, hnext⟩ | ⟨hlast, hnext⟩
  · rw [insert, hnext]
    simp only [withVersionIfAny_put_id]
    exact iff_of_true ⟨trivial, (RowFile.row?_put ..).trans (if_pos ⟨rfl, rfl⟩)⟩ hroom
  · rw [insert, hnext, hlast]
    refine iff_of_false ?_ (by decide)
    rintro ⟨⟨⟩, -⟩

theorem insertedAlike_iff (hl : l.Open) (ht : s.session.contents.Has l t) (hrow : l.Assigns row)
    (hroom : t.reached (s.session.contents.counter l.name) < Int64.maxValue) (m : Memory) :
    (InsertedAlike l row m s ↔ m.lastId < Int64.maxValue ∧ row.NamesColumn ∧
        0 ≤ t.reached (s.session.contents.counter l.name) ∧ row.ZeroFree) ∧
      (¬row.NamesColumn → Relational.insert l.name row s =
        (.error (.sql (.insert l.name (.unexpected ")"))), s)) := by
  have hpositive : 0 < t.reached (s.session.contents.counter l.name) + 1 ↔
      0 ≤ t.reached (s.session.contents.counter l.name) := by
    rw [Int64.lt_iff_toInt_lt, Int64.le_iff_toInt_le, Integer.toInt_succ hroom, Int64.toInt_zero]
    omega
  refine ⟨⟨?_, ?_⟩, Relational.insert_refused hl.plain⟩
  · rintro ⟨hmemory, n, found, hn, -, hanswer, hfound, hback⟩
    by_cases hgiven : row.NamesColumn
    · obtain ⟨haccepted, found', hfound', hid, hsent⟩ := insert_accepted hl ht hrow hroom hgiven
      have hanswers := Except.ok.inj (hanswer.symm.trans haccepted)
      obtain rfl : n = t.reached (s.session.contents.counter l.name) + 1 := by
        have hids := congrArg (·.get? Row.idColumn) hanswers
        simpa [newRow] using hids
      obtain rfl := Option.some.inj (Except.ok.inj (hfound.symm.trans hfound'))
      exact ⟨(Memory.insert_accepted l.name row m).mp hmemory, hgiven, hpositive.mp hn,
        (readBack_iff hid hsent).mp hback⟩
    · rw [Relational.insert_refused hl.plain hgiven] at hanswer
      cases hanswer
  · rintro ⟨hmemory, hgiven, hnumber, hfree⟩
    obtain ⟨haccepted, found, hfound, hid, hsent⟩ := insert_accepted hl ht hrow hroom hgiven
    refine ⟨(Memory.insert_accepted l.name row m).mpr hmemory, _, found, hpositive.mpr hnumber, ?_,
      haccepted, hfound, (readBack_iff hid hsent).mpr hfree⟩
    rw [ht.record?]
    exact Table.get?_fresh hroom

end

section

theorem open_notes : notes.Open where
  toRegular := versioned_notes.toRegular
  plain := by decide
  plainColumns := by decide
  free := by decide
  initial := by
    intro c hc
    rcases List.mem_cons.mp hc with rfl | hc
    · exact ⟨_, rfl⟩
    · obtain rfl := List.mem_singleton.mp hc
      exact ⟨_, rfl⟩
  version := by decide
  countersApart := by decide

theorem assigns_of_entries {row : Row} (hnames : ∀ x ∈ row.entries, x.1 ∈ notes.names)
    (htitle : ∀ v, row.get? "title" = some v → Affinity.text.keep (.ofValue v) = .ofValue v) :
    notes.Assigns row := by
  refine ⟨fun name v hv => hnames (name, v) (Keyed.mem_entries_iff.mpr hv), ?_⟩
  intro c hc hversion v hv
  rcases List.mem_cons.mp hc with rfl | hc
  · exact htitle v hv
  · obtain rfl := List.mem_singleton.mp hc
    exact absurd rfl hversion

def numberedNote : Row :=
  .ofList [(Row.idColumn, .int 9), ("title", .text "first"), (Row.versionColumn, .int 7)]

theorem assigns_numberedNote : notes.Assigns numberedNote :=
  assigns_of_entries (by decide +kernel) (by decide +kernel)

theorem insertedAlike_iff_numberedNote :
    notes.Open ∧ (opened noNotes).session.contents.Has notes ⟨notes, .empty⟩ ∧
      notes.Assigns numberedNote ∧
      (⟨notes, .empty⟩ : Table).reached ((opened noNotes).session.contents.counter notes.name) <
        Int64.maxValue ∧
      InsertedAlike notes numberedNote {} (opened noNotes) := by
  have hroom : (⟨notes, .empty⟩ : Table).reached
      ((opened noNotes).session.contents.counter notes.name) < Int64.maxValue := by decide +kernel
  have hfree : numberedNote.ZeroFree := by
    intro name text hv _ _
    have hgiven := Keyed.mem_of_get?_ofList hv
    simp only [List.mem_cons, Prod.mk.injEq, Value.text.injEq, reduceCtorEq, and_false,
      List.not_mem_nil, or_false, false_or] at hgiven
    obtain ⟨-, rfl⟩ := hgiven
    decide
  obtain ⟨halike, -⟩ := insertedAlike_iff open_notes has_noNotes assigns_numberedNote hroom {}
  refine ⟨open_notes, has_noNotes, assigns_numberedNote, hroom, halike.mpr ⟨?_, ?_, ?_, hfree⟩⟩
  · decide
  · exact ⟨"title", by decide, by decide +kernel⟩
  · decide +kernel

def emptyNote : Row := .ofList [(Row.idColumn, .int 9)]

theorem assigns_emptyNote : notes.Assigns emptyNote :=
  assigns_of_entries (by decide +kernel) (by decide +kernel)

theorem not_insertedAlike_emptyNote :
    notes.Open ∧ (opened noNotes).session.contents.Has notes ⟨notes, .empty⟩ ∧
      notes.Assigns emptyNote ∧ ¬InsertedAlike notes emptyNote {} (opened noNotes) ∧
      (Memory.insert "note" emptyNote {}).1 = .ok (.ofList [(Row.idColumn, .int 1)]) ∧
      Relational.insert "note" emptyNote (opened noNotes) =
        (.error (.sql (.insert "note" (.unexpected ")"))), opened noNotes) := by
  have hrefused : Relational.insert notes.name emptyNote (opened noNotes) =
      (.error (.sql (.insert notes.name (.unexpected ")"))), opened noNotes) := rfl
  refine ⟨open_notes, has_noNotes, assigns_emptyNote, ?_, by decide +kernel, hrefused⟩
  rintro ⟨-, n, found, -, -, hanswer, -⟩
  rw [hrefused] at hanswer
  cases hanswer

example : (Relational.insert "note" (titled "next")
    (Relational.update "note" (-5) none (titled "old") (opened noNotes)).2).1.toOption.bind
      (·.get? Row.idColumn) = some (.int (-4)) := by
  decide +kernel

end

end RecordQuery
