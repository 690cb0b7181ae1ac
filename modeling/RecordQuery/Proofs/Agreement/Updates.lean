import RecordQuery.Proofs.Agreement.Mirrors

namespace RecordQuery

open RecordQuery.Database RecordQuery.Relational

namespace Database.Layout

variable {l : Layout} {kind : String → Row.Kind} {row : Row} {record : Record} {id : Int64}

def Leaves (l : Layout) (kind : String → Row.Kind) (id : Int64) (answer : Row) (before : Table)
    (session : Session) : Prop :=
  ∃ u record, session.contents.Has l u ∧ l.Mirrors kind id answer record ∧
    ∀ i, u.records.get? i = if i = id then some record else before.records.get? i

theorem leaves_put {t : Table} {contents : Contents} {saved : Option Contents}
    (hmirrors : l.Mirrors kind id row record) (h : contents.Has l (t.put ⟨id, record⟩)) :
    l.Leaves kind id row t ⟨contents, saved⟩ :=
  ⟨_, record, h, hmirrors, fun _ => Keyed.get?_put ..⟩

end Database.Layout

theorem Memory.update_eq_replace {entity : String} {id : Int64} {expected : Option Int64}
    {m : Memory} (h : ∀ v, expected = some v → versionAt entity id m = .ok (some v))
    (hexpected : expected ≠ some Int64.maxValue) (row : Row) :
    update entity id expected row m = replace entity id (raisedRow id row expected) m := by
  cases expected with
  | none => rfl
  | some v =>
      have hroom : v < Int64.maxValue :=
        Integer.lt_maxValue_of_ne fun hv => hexpected (congrArg some hv)
      exact update_current (h v rfl) hroom row

namespace Relational

section

variable {l : Layout} {kind : String → Row.Kind} {m : Memory} {t : Table} {s : Relational}
  {row : Row} {id v : Int64} {expected : Option Int64} (hl : l.Serves kind)
  (ht : s.session.contents.Has l t) (hrow : l.Gives kind row) (hsame : l.MirrorsAll kind m t)

include hl ht

theorem change_nothing (hnothing : (assigned row).isEmpty = true) :
    change l.name id none (row.put Row.idColumn (.int id)) s =
      .ok ((t.records.get? id).isSome, s.session) := by
  obtain rfl := ht.layout
  have hselect : s.session.select (byId t.layout.name (.column Row.idColumn) id) = .ok t :=
    table?_of_checks (checkSelect_byId hl.plain rfl id) (ht.table? rfl)
  rw [change, assigned_put_id, hnothing, rowExists_of_select hl.toRegular hselect]
  rfl

theorem update_refused (hversion : ¬l.HasVersion) :
    ∃ fault, update l.name id (some v) row s = (.error (.sql fault), s) := by
  cases hupdate : s.session.update l.name id (some v) (assigned row) with
  | error fault => exact ⟨_, update_of_refused (Bool.and_false _) hupdate⟩
  | ok result =>
      obtain ⟨done, session⟩ := result
      obtain ⟨t', u, ht', hwritten, -⟩ := Session.update_eq_ok hupdate
      obtain rfl := Except.ok.inj ((ht.table? rfl).symm.trans ht')
      obtain rfl := ht.layout
      refine absurd (hl.hasVersion_of_place? ?_) hversion
      exact Table.place?_of_stranger? (Table.update_eq_ok hwritten).1
        (List.mem_append_right _ (List.mem_singleton_self _))

include hrow

theorem update_stays {stored : Row} {record : Record} (hempty : (assigned row).isEmpty = true)
    (hrecord : t.records.get? id = some record) (hmirrors : l.Mirrors kind id stored record)
    (hkept : stored.value Row.versionColumn = row.value Row.versionColumn) :
    update l.name id none row s = put l.name id (raisedRow id row none) s.session s ∧
      l.Leaves kind id (raisedRow id row none) t s.session := by
  have hgives : l.Gives kind (raisedRow id row none) := hl.gives_raisedRow hrow (by simp) id
  -- the version is the only column, as each other one would be assigned
  have hanswer : l.Mirrors kind id (raisedRow id row none) record := by
    refine hgives.mirrors (get?_raisedRow_id id row none) fun c hc => ?_
    have hname := hrow.name_eq_version hl hempty hc
    rw [hmirrors.cells c hc, hname, hkept, raisedRow, Row.value_put, if_neg (by decide)]
  refine ⟨?_, t, record, ht, hanswer, fun i => ?_⟩
  · unfold update
    simp only [change_nothing hl ht hempty, hrecord, Option.isSome_some]
    rfl
  · split
    · rename_i hi
      rw [hi, hrecord]
    · rfl

include hsame

theorem session_update_missed (hversion : expected.isSome → l.HasVersion)
    (hmissed : ∀ record, t.records.get? id = some record → ∃ v, expected = some v ∧
      t.version? id ≠ some v) :
    s.session.update l.name id expected (assigned row) = .ok (false, s.session) := by
  obtain rfl := ht.layout
  have hupdate := Table.update_missed hl.toRegular hrow.names
    (fun hsome => hsame.version_kinds hl (hversion hsome) rfl) fun record hrecord => by
      obtain ⟨v, hv, hne⟩ := hmissed record hrecord
      exact ⟨v, hv, mt (Table.version?_eq_some hrecord).mpr hne⟩
  rw [Session.update_eq hl.plain (hl.plain_assigned hrow) (ht.table? rfl) hupdate, Contents.put,
    Keyed.put_get? ht.table]

theorem update_conflicts (hversion : l.HasVersion) (hne : t.version? id ≠ some v) :
    update l.name id (some v) row s =
      (.error (.versionConflict l.name id v (t.version? id)), s) := by
  have hupdate := session_update_missed hl ht hrow hsame (fun _ => hversion)
    fun _ _ => ⟨v, rfl, hne⟩
  have hstored : storedVersion l.name id s = .ok (t.version? id) := by
    refine storedVersion_eq hl.toRegular ht id (fun record hrecord => ?_) rfl hl.plain
    obtain ⟨c, hc, hname, -, hkinds⟩ := hsame.version_kinds hl hversion ht.layout
    rw [ht.layout] at hc
    rw [← hname, hl.cellOf_column hc]
    exact hkinds _ (Table.mem_entries.mpr hrecord)
  unfold update
  simp only [change_of_update (Bool.and_false _) hupdate, hstored]

theorem change_missing (hrecord : t.records.get? id = none) :
    change l.name id none (row.put Row.idColumn (.int id)) s = .ok (false, s.session) := by
  by_cases hnothing : (assigned row).isEmpty = true
  · rw [change_nothing hl ht hnothing, hrecord]
    rfl
  · refine change_of_update ?_ ?_
    · simpa using hnothing
    · refine session_update_missed hl ht hrow hsame nofun fun record hsome => ?_
      rw [hrecord] at hsome
      cases hsome

theorem update_inserts (hrecord : t.records.get? id = none)
    (hallows : t.Allows ⟨id, l.filled (raisedRow id row none) Column.initial⟩) :
    ∃ session, update l.name id none row s = put l.name id (raisedRow id row none) session s ∧
      l.Leaves kind id (raisedRow id row none) t session := by
  obtain rfl := ht.layout
  have hgives : t.layout.Gives kind (raisedRow id row none) :=
    hl.gives_raisedRow hrow (by simp) id
  have hid := get?_raisedRow_id id row none
  have hmirrors := hl.mirrors_filled hgives hid Column.initial
  obtain ⟨contents, hcontents, hinsert⟩ := Session.insert_eq hl.plain
    (hl.toRegular.plain_cellsOf hl.plainColumns hgives.names)
    (Layout.isEmpty_cellsOf hid) hl.countersApart ht
    (Table.insert_eq_put hl.toRegular hgives.names hid hrecord hallows t.layout.name _ _) rfl
  refine ⟨⟨contents, s.session.saved⟩, ?_, Layout.leaves_put hmirrors hcontents⟩
  unfold update
  simp only [change_missing hl ht hrow hsame hrecord]
  rw [← raisedRow, hinsert]

theorem update_replaces (hgiven : ((assigned row).isEmpty && expected.isNone) = false)
    (hversion : expected.isSome → l.HasVersion) (hexpected : expected ≠ some Int64.maxValue)
    {stored : Row} {record : Record} (hrecord : t.records.get? id = some record)
    (hmirrors : l.Mirrors kind id stored record)
    (hmeets : ∀ v, expected = some v → t.version? id = some v)
    (hkept : expected = none → stored.value Row.versionColumn = row.value Row.versionColumn)
    (hallows : t.Allows ⟨id, l.filled (raisedRow id row expected) Column.initial⟩) :
    ∃ session, update l.name id expected row s =
        put l.name id (raisedRow id row expected) session s ∧
      l.Leaves kind id (raisedRow id row expected) t session := by
  obtain rfl := ht.layout
  have hcell : ∀ v, expected = some v →
      cellOf t.layout ⟨id, record⟩ (.field Row.versionColumn) = .int v :=
    fun v hv => (Table.version?_eq_some hrecord).mp (hmeets v hv)
  have hfilled := hmirrors.filled_renewed hl hrow hkept Column.initial
  have hupdate := Table.update_eq_put hl.toRegular hrow.names
    (fun hsome => hsame.version_kinds hl (hversion hsome) rfl) hl.exact_version hexpected hrecord
    hcell (hfilled.symm ▸ hallows)
  rw [hfilled] at hupdate
  have hchange := change_of_update hgiven
    (Session.update_eq hl.plain (hl.plain_assigned hrow) (ht.table? rfl) hupdate)
  have hanswer := hl.mirrors_filled (hl.gives_raisedRow hrow hversion id)
    (get?_raisedRow_id id row expected) Column.initial
  have hput := ht.put hl.countersApart
    (rfl : (t.put ⟨id, t.layout.filled (raisedRow id row expected) Column.initial⟩).layout = _)
  refine ⟨⟨_, s.session.saved⟩, ?_, Layout.leaves_put hanswer hput⟩
  unfold update
  simp only [hchange]
  cases expected with
  | none => rfl
  | some v =>
      have hroom : v < Int64.maxValue :=
        Integer.lt_maxValue_of_ne fun hv => hexpected (congrArg some hv)
      simp only [numberAfter_of_lt hroom]
      rfl

theorem update_writes (hversion : expected.isSome → l.HasVersion)
    (hexpected : expected ≠ some Int64.maxValue)
    (hmeets : ∀ v, expected = some v → t.version? id = some v)
    (hkept : expected = none → ∀ stored, m.tables.row? l.name id = some stored →
      stored.value Row.versionColumn = row.value Row.versionColumn)
    (hallows : t.Allows ⟨id, l.filled (raisedRow id row expected) Column.initial⟩) :
    ∃ session, update l.name id expected row s =
        put l.name id (raisedRow id row expected) session s ∧
      l.Leaves kind id (raisedRow id row expected) t session := by
  cases hrecord : t.records.get? id with
  | none =>
      obtain rfl : expected = none := by
        refine Option.eq_none_iff_forall_ne_some.mpr fun v hv => ?_
        have hmeets := hmeets v hv
        rw [Table.version?, hrecord] at hmeets
        cases hmeets
      exact update_inserts hl ht hrow hsame hrecord hallows
  | some record =>
      obtain ⟨stored, hstored, hmirrors⟩ := hsame.exists_row hrecord
      by_cases hnothing : ((assigned row).isEmpty && expected.isNone) = true
      · obtain ⟨hempty, hnone⟩ := Bool.and_eq_true_iff.mp hnothing
        obtain rfl := Option.isNone_iff_eq_none.mp hnone
        exact ⟨_, update_stays hl ht hrow hempty hrecord hmirrors (hkept rfl stored hstored)⟩
      · exact update_replaces hl ht hrow hsame (Bool.eq_false_iff.mpr hnothing) hversion hexpected
          hrecord hmirrors hmeets (fun hnone => hkept hnone stored hstored) hallows

theorem session_update_keeps {record : Record} (hrecord : t.records.get? id = some record)
    {done : Bool} {session : Session}
    (h : s.session.update l.name id none (assigned row) = .ok (done, session))
    {c : Column} (hc : c ∈ l.columns) (hname : c.name = Row.versionColumn) :
    done = true ∧ ∃ u kept, session.contents.Has l u ∧ u.records.get? id = some kept ∧
      (Entry.mk id kept).column c = (Entry.mk id record).column c := by
  obtain ⟨t', u, ht', hwritten, rfl⟩ := Session.update_eq_ok h
  obtain rfl := Except.ok.inj ((ht.table? rfl).symm.trans ht')
  obtain rfl := ht.layout
  have haim : ∀ e ∈ t.entries,
      satisfies t.layout e (Session.aim id none) = true ↔ e.number = id := fun e he =>
    (Table.satisfies_aim_of_mem hl.toRegular (by simp) he).trans (and_iff_left nofun)
  obtain ⟨-, ⟨-, -, hnone⟩ | ⟨rfl, e, he, hsat, hreplace⟩⟩ := Table.update_eq_ok hwritten
  · have hmem : (⟨id, record⟩ : Entry) ∈ t.entries := Table.mem_entries.mpr hrecord
    exact absurd ((haim _ hmem).mpr rfl) (hnone _ hmem)
  · obtain rfl := (haim e he).mp hsat
    obtain rfl : record = e.record :=
      Option.some.inj (hrecord.symm.trans (Table.mem_entries.mp he))
    have hunguarded : ∀ v, (none : Option Int64) = some v →
        cellOf t.layout e (.field Row.versionColumn) = .int v := nofun
    obtain rfl := Table.replace_raised hl.toRegular hl.exact_version
      (fun _ _ => (hl.spells hrow.names).bare) (by simp) hunguarded hreplace
    obtain ⟨stored, -, hmirrors⟩ := hsame.exists_row hrecord
    have hput := ht.put hl.countersApart
      (rfl : (t.put ⟨e.number, t.layout.filled (renewed row none) e.column⟩).layout = _)
    refine ⟨rfl, _, _, hput, (Keyed.get?_put ..).trans (if_pos rfl), ?_⟩
    rw [hl.column_filled hc, renewed, bare, Keyed.get?_erase, if_pos hname]
    exact hmirrors.keep_column hl hc

theorem update_keeps_version {record : Record} (hrecord : t.records.get? id = some record)
    {answer : Row} {after : Relational} (h : update l.name id none row s = (.ok answer, after))
    {c : Column} (hc : c ∈ l.columns) (hname : c.name = Row.versionColumn) :
    ∃ u kept, after.session.contents.Has l u ∧ u.records.get? id = some kept ∧
      (Entry.mk id kept).column c = (Entry.mk id record).column c := by
  by_cases hnothing : (assigned row).isEmpty = true
  · unfold update at h
    simp only [change_nothing hl ht hnothing, hrecord, Option.isSome_some] at h
    cases h
    exact ⟨t, record, ht, hrecord, rfl⟩
  · have hgiven : ((assigned row).isEmpty && (none : Option Int64).isNone) = false := by
      simpa using hnothing
    cases hupdate : s.session.update l.name id none (assigned row) with
    | error fault =>
        rw [update_of_refused hgiven hupdate] at h
        cases h
    | ok result =>
        obtain ⟨done, session⟩ := result
        obtain ⟨rfl, hkept⟩ := session_update_keeps hl ht hrow hsame hrecord hupdate hc hname
        unfold update at h
        simp only [change_of_update hgiven hupdate] at h
        cases h
        exact hkept

end

end Relational

structure SharedUpdate (l : Layout) (kind : String → Row.Kind) (id : Int64) (answer : Row)
    (m : Except StoreError Row × Memory) (s : Except StoreError Row × Relational) : Prop where
  inMemory : m.1 = .ok answer ∧ m.2.tables.row? l.name id = some answer ∧
    m.2.cache.row? l.name id = some answer
  inTable : s.1 = .ok answer ∧ (∃ t record, s.2.session.contents.Has l t ∧
    l.MirrorsAll kind m.2 t ∧ t.records.get? id = some record ∧ l.Mirrors kind id answer record) ∧
    s.2.cache.row? l.name id = some answer

/-- Both stores refuse an update with the same conflict and change nothing, if the version is not
the one that is expected, or else answer with the row under its id and its next version. -/
def UpdatedAlike (l : Layout) (kind : String → Row.Kind) (id : Int64) (expected : Option Int64)
    (row : Row) (m : Memory) (s : Relational) : Prop :=
  (∃ v actual, expected = some v ∧ Memory.versionAt l.name id m = .ok actual ∧ actual ≠ some v ∧
      Memory.update l.name id expected row m =
        (.error (.versionConflict l.name id v actual), m) ∧
      Relational.update l.name id expected row s =
        (.error (.versionConflict l.name id v actual), s)) ∨
    (∀ v, expected = some v → Memory.versionAt l.name id m = .ok (some v)) ∧
      SharedUpdate l kind id (raisedRow id row expected) (Memory.update l.name id expected row m)
        (Relational.update l.name id expected row s)

section

variable {l : Layout} {kind : String → Row.Kind} {m : Memory} {t : Table} {s : Relational}
  {row : Row} {id : Int64} {expected : Option Int64}

theorem sharedUpdate_of_leaves (hsame : l.MirrorsAll kind m t)
    (hmeets : ∀ v, expected = some v → Memory.versionAt l.name id m = .ok (some v))
    (hexpected : expected ≠ some Int64.maxValue) {session : Session}
    (hupdate : Relational.update l.name id expected row s =
      Relational.put l.name id (raisedRow id row expected) session s)
    (hleaves : l.Leaves kind id (raisedRow id row expected) t session) :
    SharedUpdate l kind id (raisedRow id row expected) (Memory.update l.name id expected row m)
      (Relational.update l.name id expected row s) := by
  obtain ⟨u, record, hu, hmirrors, hrecords⟩ := hleaves
  rw [Memory.update_eq_replace hmeets hexpected, hupdate]
  have htables : ∀ i, (Memory.replace l.name id (raisedRow id row expected) m).2.tables.row?
      l.name i = if i = id then some (raisedRow id row expected) else m.tables.row? l.name i := by
    intro i
    simp [Memory.replace, Memory.write]
  have hboth := hsame.write hmirrors htables hrecords
  refine ⟨⟨rfl, ?_, ?_⟩, rfl, ⟨u, record, hu, hboth, ?_, hmirrors⟩, ?_⟩
  · rw [htables, if_pos rfl]
  · simp [Memory.replace, Memory.write, Cache.row?_put]
  · rw [hrecords, if_pos rfl]
  · simp [Relational.put, Cache.row?_put]

variable (hl : l.Serves kind) (ht : s.session.contents.Has l t) (hrow : l.Gives kind row)
  (hsame : l.MirrorsAll kind m t)

include hl ht

theorem hasVersion_of_updatedAlike (h : UpdatedAlike l kind id expected row m s)
    (hsome : expected.isSome) : l.HasVersion := by
  obtain ⟨v, rfl⟩ := Option.isSome_iff_exists.mp hsome
  by_contra hversion
  obtain ⟨fault, hrefused⟩ : ∃ fault, Relational.update l.name id (some v) row s =
      (.error (.sql fault), s) := Relational.update_refused hl ht hversion
  rcases h with ⟨w, actual, -, -, -, -, hconflict⟩ | ⟨-, hshared⟩
  · rw [hrefused] at hconflict
    cases hconflict
  · have hanswer := hshared.inTable.1
    rw [hrefused] at hanswer
    cases hanswer

include hrow hsame

theorem updatedAlike_of_kept (hversion : expected.isSome → l.HasVersion)
    (hkept : expected = none → ∀ stored, m.tables.row? l.name id = some stored →
      stored.value Row.versionColumn = row.value Row.versionColumn)
    (hexpected : expected ≠ some Int64.maxValue)
    (hallows : (∀ v, expected = some v → t.version? id = some v) →
      t.Allows ⟨id, l.filled (raisedRow id row expected) Column.initial⟩) :
    UpdatedAlike l kind id expected row m s := by
  have hread : ∀ v, expected = some v → Memory.versionAt l.name id m = .ok (t.version? id) := by
    rintro v rfl
    exact hsame.versionAt_eq hl (hversion rfl) ht.layout id
  by_cases hmeets : ∀ v, expected = some v → t.version? id = some v
  · obtain ⟨session, hupdate, hleaves⟩ :=
      Relational.update_writes hl ht hrow hsame hversion hexpected hmeets hkept (hallows hmeets)
    have hcurrent : ∀ v, expected = some v → Memory.versionAt l.name id m = .ok (some v) :=
      fun v hv => (hread v hv).trans (congrArg Except.ok (hmeets v hv))
    exact .inr ⟨hcurrent, sharedUpdate_of_leaves hsame hcurrent hexpected hupdate hleaves⟩
  · simp only [not_forall] at hmeets
    obtain ⟨v, rfl, hne⟩ := hmeets
    exact .inl ⟨v, t.version? id, rfl, hread v rfl, hne,
      Memory.update_conflict (hread v rfl) hne row,
      Relational.update_conflicts hl ht hrow hsame (hversion rfl) hne⟩

theorem version_kept_of_updatedAlike (h : UpdatedAlike l kind id none row m s) {stored : Row}
    (hstored : m.tables.row? l.name id = some stored) :
    stored.value Row.versionColumn = row.value Row.versionColumn := by
  obtain ⟨record, hrecord, hmirrors⟩ := hsame.exists_record hstored
  by_cases hversion : l.HasVersion
  · obtain ⟨c, hc, hname⟩ := hversion
    rcases h with ⟨v, -, hv, -⟩ | ⟨-, -, hanswer, hinTable, -⟩
    · cases hv
    obtain ⟨t', record', ht', -, hrecord', hmirrors'⟩ := hinTable
    obtain ⟨u, kept, hu, hkept, hcell⟩ :=
      Relational.update_keeps_version hl ht hrow hsame hrecord (Prod.ext hanswer rfl) hc hname
    obtain rfl : u = t' := Option.some.inj (hu.table.symm.trans ht'.table)
    obtain rfl : kept = record' := Option.some.inj (hkept.symm.trans hrecord')
    -- the record that is left mirrors the answer, and its version is that of the one before
    obtain ⟨n, hn, hcell₁⟩ := hmirrors.version_cases hl hc hname
    obtain ⟨n', hn', hcell₂⟩ := hmirrors'.version_cases hl hc hname
    obtain rfl : n' = n := by
      rw [hcell₁, hcell₂] at hcell
      cases n <;> cases n' <;> simp_all [Value.ofOption, Cell.ofValue]
    have hgiven : (raisedRow id row none).value Row.versionColumn =
        row.value Row.versionColumn := by
      rw [raisedRow, Row.value_put, if_neg (by decide)]
    rw [hn, ← hn', hgiven]
  · rw [hl.value_version_of_not hversion hmirrors.names,
      hl.value_version_of_not hversion hrow.names]

theorem updatedAlike_iff (hexpected : expected ≠ some Int64.maxValue)
    (hallows : (∀ v, expected = some v → t.version? id = some v) →
      t.Allows ⟨id, l.filled (raisedRow id row expected) Column.initial⟩) :
    UpdatedAlike l kind id expected row m s ↔ (expected.isSome → l.HasVersion) ∧
      (expected = none → ∀ stored, m.tables.row? l.name id = some stored →
        stored.value Row.versionColumn = row.value Row.versionColumn) := by
  constructor
  · intro h
    refine ⟨hasVersion_of_updatedAlike hl ht h, ?_⟩
    rintro rfl stored hstored
    exact version_kept_of_updatedAlike hl ht hrow hsame h hstored
  · rintro ⟨hversion, hkept⟩
    exact updatedAlike_of_kept hl ht hrow hsame hversion hkept hexpected hallows

end

section

def noteKind (name : String) : Row.Kind := if name = "title" then .text else .integer

theorem serves_notes : notes.Serves noteKind where
  toRegular := versioned_notes.toRegular
  plain := by decide
  plainColumns := by decide
  keeps := by
    have haffinity : ∀ c ∈ notes.columns, c.affinity = (noteKind c.name).affinity := by decide
    intro c hc v hv
    rw [haffinity c hc]
    exact Row.Kind.keep_ofValue hv
  version := by decide
  countersApart := by decide

theorem gives_titled (title : String) : notes.Gives noteKind (titled title) := by
  refine ⟨fun _ _ => mem_names_titled, fun c hc => ?_⟩
  rcases List.mem_cons.mp hc with rfl | hc
  · exact ⟨.text title, by simp [titled, Keyed.ofList], trivial⟩
  · obtain rfl := List.mem_singleton.mp hc
    exact ⟨.int 0, by simp [titled, Keyed.ofList], trivial⟩

def firstNote : Row := raisedRow 1 (titled "first") none

def noteInMemory : Memory := { tables := ({} : RowFile).put "note" 1 firstNote }

def noteTable : Table := (⟨notes, .empty⟩ : Table).put ⟨1, notes.filled firstNote Column.initial⟩

def noteInTable : Relational := opened (noNotes.put noteTable)

theorem has_noteTable : noteInTable.session.contents.Has notes noteTable :=
  has_noNotes.put serves_notes.countersApart rfl

theorem mirrorsAll_note : notes.MirrorsAll noteKind noteInMemory noteTable := by
  have hstart : notes.MirrorsAll noteKind {} ⟨notes, .empty⟩ := fun _ => .none
  have hgives : notes.Gives noteKind firstNote :=
    serves_notes.gives_raisedRow (gives_titled "first") (by simp) 1
  have hmirrors := serves_notes.mirrors_filled hgives (get?_raisedRow_id 1 _ none) Column.initial
  refine hstart.write hmirrors (fun i => ?_) fun i => Keyed.get?_put ..
  simp [noteInMemory, notes]

theorem updatedAlike_iff_guarded :
    notes.Serves noteKind ∧ noteInTable.session.contents.Has notes noteTable ∧
      notes.MirrorsAll noteKind noteInMemory noteTable ∧
      notes.Gives noteKind (titled "second") ∧ some (0 : Int64) ≠ some Int64.maxValue ∧
      noteTable.Allows
        ⟨1, notes.filled (raisedRow 1 (titled "second") (some 0)) Column.initial⟩ ∧
      UpdatedAlike notes noteKind 1 (some 0) (titled "second") noteInMemory noteInTable := by
  have hallows : noteTable.Allows
      ⟨1, notes.filled (raisedRow 1 (titled "second") (some 0)) Column.initial⟩ := by
    decide +kernel
  obtain ⟨c, hc, hname, -⟩ := versioned_notes.version
  refine ⟨serves_notes, has_noteTable, mirrorsAll_note, gives_titled _, by decide, hallows, ?_⟩
  exact (updatedAlike_iff serves_notes has_noteTable (gives_titled "second") mirrorsAll_note
    (by decide) fun _ => hallows).mpr ⟨fun _ => ⟨c, hc, hname⟩, nofun⟩

def laterNote : Row := (titled "second").put Row.versionColumn (.int 7)

theorem gives_laterNote : notes.Gives noteKind laterNote :=
  (gives_titled "second").put (by decide) (by decide)

theorem not_updatedAlike_laterNote :
    notes.Serves noteKind ∧ noteInTable.session.contents.Has notes noteTable ∧
      notes.MirrorsAll noteKind noteInMemory noteTable ∧ notes.Gives noteKind laterNote ∧
      noteTable.Allows ⟨1, notes.filled (raisedRow 1 laterNote none) Column.initial⟩ ∧
      ¬UpdatedAlike notes noteKind 1 none laterNote noteInMemory noteInTable ∧
      ((Memory.update "note" 1 none laterNote noteInMemory).2.tables.row? "note" 1).map
        (·.value Row.versionColumn) = some (.int 7) ∧
      (Relational.update "note" 1 none laterNote noteInTable).2.session.contents.version? "note" 1 =
        some 0 := by
  refine ⟨serves_notes, has_noteTable, mirrorsAll_note, gives_laterNote, by decide +kernel, ?_,
    by decide +kernel, by decide +kernel⟩
  intro h
  have hkept := version_kept_of_updatedAlike serves_notes has_noteTable gives_laterNote
    mirrorsAll_note h (rfl : noteInMemory.tables.row? "note" 1 = some firstNote)
  revert hkept
  decide +kernel

end

end RecordQuery
