import RecordQuery.Proofs.Predicate.StorageForm
import RecordQuery.Proofs.Store.Outcomes

namespace RecordQuery

open RecordQuery.Database

theorem Value.storageForm_storageForm (v : Value) : v.storageForm.storageForm = v.storageForm := by
  cases v <;> rfl

theorem Database.Cell.ofValue_storageForm (v : Value) : ofValue v.storageForm = ofValue v := by
  cases v <;> rfl

theorem Time.Instant.zero_not_mem_stored (t : Time.Instant) : '\x00' ∉ t.stored.toList :=
  not_mem_stored rfl (by decide)

theorem Database.clip_eq_self {s : String} : clip s = s ↔ '\x00' ∉ s.toList := by
  rw [clip, ← String.toList_inj, String.toList_ofList, untilZero, List.takeWhile_eq_self_iff]
  constructor
  · intro h hzero
    exact absurd (h _ hzero) (by decide)
  · intro h c hc
    rw [bne_iff_ne]
    rintro rfl
    exact h hc

namespace Row

variable (row : Row)

theorem get?_stored (name : String) :
    row.stored.get? name = (row.get? name).map Value.storageForm :=
  Keyed.get?_map ..

theorem contains_stored (name : String) :
    row.stored.contains name = row.contains name := by
  rw [Keyed.contains, get?_stored, Option.isSome_map]
  rfl

theorem stored_put (name : String) (v : Value) :
    stored (row.put name v) = row.stored.put name v.storageForm := by
  ext other
  rw [get?_stored, Keyed.get?_put, Keyed.get?_put, get?_stored]
  split <;> rfl

theorem stored_erase (name : String) :
    stored (row.erase name) = row.stored.erase name := by
  ext other
  rw [get?_stored, Keyed.get?_erase, Keyed.get?_erase, get?_stored]
  split <;> rfl

end Row

def Database.Layout.Keeps (l : Layout) (row : Row) : Prop :=
  ∀ name v, (bare row).get? name = some v → l.Takes name v.storageForm

theorem Value.tells_storageForm (v : Value) : v.storageForm.Tells := by
  cases v <;> trivial

theorem Database.Layout.Regular.takes_storageForm {l : Layout} (h : l.Regular) {c : Column}
    (hc : c ∈ l.columns) {v : Value}
    (hkept : (c.affinity.keep (.ofValue v)).value? = .ok v.storageForm) :
    l.Takes c.name v.storageForm := by
  rw [Takes, h.place?_column hc]
  refine ⟨rfl, v.tells_storageForm, ?_⟩
  rw [Cell.ofValue_storageForm, Value.storageForm_storageForm]
  exact hkept

namespace Relational

section

variable (row : Row) (entity : String) (s : Relational)

theorem cellsOf_stored : cellsOf row.stored = cellsOf row := by
  rw [cellsOf, cellsOf, Row.stored, Keyed.map, List.map_map]
  refine List.map_congr_left fun x _ => ?_
  exact congrArg (Prod.mk x.1) (Cell.ofValue_storageForm x.2)

theorem bare_stored : bare row.stored = Row.stored (bare row) := by
  rw [bare, bare, Row.stored_erase, Row.stored_erase]

theorem initialRow_stored : initialRow row.stored = Row.stored (initialRow row) := by
  rw [initialRow, initialRow, Row.contains_stored]
  split
  · rw [Row.stored_put]
    rfl
  · rfl

theorem raisedRow_stored (id : Int64) (expected : Option Int64) :
    raisedRow id row.stored expected = Row.stored (raisedRow id row expected) := by
  cases expected with
  | none =>
      rw [raisedRow, raisedRow, Row.stored_put]
      rfl
  | some version =>
      rw [raisedRow, raisedRow, Row.stored_put, Row.stored_put]
      rfl

theorem insert_stored :
    (insert entity row.stored s).2.session = (insert entity row s).2.session ∧
      (insert entity row.stored s).1 = (insert entity row s).1.map Row.stored := by
  have hcells : cellsOf (withoutId (initialRow row.stored)) =
      cellsOf (withoutId (initialRow row)) := by
    rw [initialRow_stored, withoutId, ← Row.stored_erase, cellsOf_stored, withoutId]
  unfold insert
  rw [← initialRow, ← initialRow]
  simp only [hcells]
  split
  · exact ⟨rfl, rfl⟩
  · refine ⟨rfl, congrArg Except.ok ?_⟩
    rw [initialRow_stored, Row.stored_put]
    rfl

theorem change_stored (id : Int64) (expected : Option Int64) :
    change entity id expected row.stored s = change entity id expected row s := by
  have hassigned : assigned row.stored = assigned row := by
    rw [assigned, ← Row.stored_erase, ← Row.stored_erase, cellsOf_stored]
    rfl
  rw [change, change, hassigned]

theorem update_stored (id : Int64) (expected : Option Int64) :
    (update entity id expected row.stored s).2.session =
        (update entity id expected row s).2.session ∧
      (update entity id expected row.stored s).1 =
        (update entity id expected row s).1.map Row.stored := by
  have hput : row.stored.put Row.idColumn (.int id) =
      Row.stored (row.put Row.idColumn (.int id)) :=
    (Row.stored_put row Row.idColumn (.int id)).symm
  have hraised : ∀ version : Int64,
      (Row.stored (row.put Row.idColumn (.int id))).put Row.versionColumn (.int version) =
        Row.stored ((row.put Row.idColumn (.int id)).put Row.versionColumn (.int version)) :=
    fun version => (Row.stored_put _ Row.versionColumn (.int version)).symm
  unfold update
  simp only [hput, change_stored, cellsOf_stored]
  split
  · exact ⟨rfl, rfl⟩
  · cases expected with
    | none => simp only [put, Except.map, and_self]
    | some version =>
        cases hnext : numberAfter version <;>
          simp only [hnext, put, Except.map, hraised, and_self]
  · cases expected with
    | none =>
        simp only
        split <;> simp only [put, Except.map, and_self]
    | some version => cases storedVersion entity id s <;> exact ⟨rfl, rfl⟩

end

variable {layouts : List Layout} {l : Layout} {id : Int64} {row : Row} {s t : Relational}

theorem calls_of_mem (hs : Schema layouts) (hl : l ∈ layouts) : Calls layouts l.name := by
  intro l' hl' hname
  rcases List.mem_cons.mp hl' with rfl | hl'
  · exact absurd hname.symm (hs.apart l hl).1
  rcases List.mem_cons.mp hl' with rfl | hl'
  · exact absurd hname.symm (hs.apart l hl).2
  · obtain rfl := hs.eq_of_folded hl' hl hname
    exact ⟨hl', rfl⟩

theorem takes_stored (hs : Schema layouts) (hl : l ∈ layouts) (h : l.Keeps row) :
    ∀ l' ∈ layouts, l'.name = l.name → ∀ name v, (bare row.stored).get? name = some v →
      l'.Takes name v := by
  intro l' hl' hname name v hv
  obtain rfl := hs.eq_of_folded hl' hl (congrArg folded hname)
  rw [bare_stored, Row.get?_stored] at hv
  obtain ⟨w, hw, rfl⟩ := Option.map_eq_some_iff.mp hv
  exact h name w hw

theorem storageForm_of_rowOfCells {cells : List (String × Cell)} (h : rowOfCells cells = .ok row)
    {name : String} {v : Value} (hv : row.get? name = some v) : v.storageForm = v := by
  induction cells generalizing row with
  | nil =>
      obtain rfl := Except.ok.inj h
      cases hv
  | cons x rest ih =>
      obtain ⟨first, cell⟩ := x
      unfold rowOfCells at h
      split at h
      · cases h
      · rename_i w hw
        split at h
        · cases h
        · rename_i row' hrest
          obtain rfl := Except.ok.inj h
          rw [Keyed.get?_put] at hv
          split at hv
          · rw [← Option.some.inj hv]
            exact (storageForm_of_value? hw).2
          · exact ih hrest hv

theorem storageForm_of_rowsOf {entity : String} {selection : Sql.Select} {rows : List Row}
    (h : rowsOf entity selection s = .ok rows) (hrow : row ∈ rows) {name : String} {v : Value}
    (hv : row.get? name = some v) : v.storageForm = v := by
  unfold rowsOf at h
  split at h
  · cases h
  · simp only [bind_eq_ok] at h
    obtain ⟨table, -, hrows⟩ := h
    obtain ⟨cells, -, hcells⟩ := exists_of_mapM hrows hrow
    unfold rowOf at hcells
    split at hcells
    · rename_i read hread
      obtain rfl := Except.ok.inj hcells
      exact storageForm_of_rowOfCells hread hv
    · cases hcells

structure Kept (l : Layout) (id : Int64) (row : Row) (s : Relational) : Prop where
  cached : s.cache.row? l.name id = some row
  table : ∃ found, rowsOf l.name (byId l.name .rows id) s = .ok [found] ∧
    ∀ name v, row.get? name = some v → found.get? name = some v.storageForm

theorem kept_of_wrote (hs : Schema layouts) (hl : l ∈ layouts) {written : Relational}
    (hwrote : Wrote layouts l.name id row.stored s written)
    (hsession : t.session = written.session)
    (hcache : t.cache.row? l.name id = some row) : Kept l id row t := by
  refine ⟨hcache, ?_⟩
  obtain ⟨l', hl', hname, record, hwrites, hagrees⟩ := hwrote.record
  obtain rfl := hs.eq_of_folded hl' hl (congrArg folded hname)
  have hfits : t.session.contents.Fits layouts := hsession ▸ hwrites.fits
  have hhere : t.session.contents.record? l'.name id = some record := hsession ▸ hwrites.here
  rcases rowsOf_byId hs hfits hl id with ⟨hnone, -⟩ |
    ⟨record', found, hrecord, hrows, hwhole, hfound⟩
  · rw [hhere] at hnone
    cases hnone
  obtain rfl : record = record' := Option.some.inj (hhere.symm.trans hrecord)
  refine ⟨found, hrows, ?_⟩
  intro name v hv
  have hstored : row.stored.get? name = some v.storageForm := by
    rw [Row.get?_stored, hv]
    rfl
  obtain ⟨hmem, -, hcell⟩ := hagrees name _ hstored
  obtain ⟨w, hw⟩ := Option.isSome_iff_exists.mp (hwhole name hmem)
  obtain ⟨-, -, hread⟩ := hfound name w hw
  have hform := storageForm_of_rowsOf hrows (List.mem_singleton_self _) hw
  rw [hcell, hform, Value.storageForm_storageForm] at hread
  rw [hw, Except.ok.inj hread]

theorem insert_eq_ok {entity : String} {answer : Row} (h : (insert entity row s).1 = .ok answer) :
    ∃ n, answer = (initialRow row).put Row.idColumn (.int n) ∧
      (insert entity row s).2.cache = s.cache.put entity n answer := by
  unfold insert at h ⊢
  rw [← initialRow] at h ⊢
  simp only at h ⊢
  split at h
  · cases h
  · rename_i n session _
    obtain rfl := Except.ok.inj h
    exact ⟨n, rfl, rfl⟩

theorem kept_of_insert (hs : Schema layouts) (hl : l ∈ layouts) (h : Sound layouts s)
    (hkeeps : l.Keeps row) {answer : Row} (hinsert : (insert l.name row s).1 = .ok answer) :
    ∃ n, answer = (initialRow row).put Row.idColumn (.int n) ∧
      Kept l n answer (insert l.name row s).2 := by
  obtain ⟨hsession, hanswer⟩ := insert_stored row l.name s
  rw [hinsert] at hanswer
  obtain ⟨n, rfl, hcache⟩ := insert_eq_ok hinsert
  refine ⟨n, rfl, ?_⟩
  have hcall : (Call.insert l.name row.stored).Keeps layouts :=
    ⟨calls_of_mem hs hl, takes_stored hs hl hkeeps⟩
  rcases insert_cases hs h hcall with ⟨m, hok, hwrote⟩ | ⟨e, herror, -⟩
  · -- both insertions number their row alike
    have hrow := Except.ok.inj (hok.symm.trans hanswer)
    have hid := congrArg (·.get? Row.idColumn) hrow
    simp only [Row.get?_stored, Keyed.get?_put, if_true, Option.map_some] at hid
    obtain rfl : m = n := Value.int.inj (Option.some.inj hid)
    refine kept_of_wrote hs hl (hrow ▸ hwrote) hsession.symm ?_
    rw [hcache, Cache.row?_put, if_pos ⟨rfl, rfl⟩]
  · rw [hanswer] at herror
    cases herror

theorem sound_insert (hs : Schema layouts) (hl : l ∈ layouts) (h : Sound layouts s)
    (hkeeps : l.Keeps row) : Sound layouts (insert l.name row s).2 := by
  have hcall : (Call.insert l.name row.stored).Keeps layouts :=
    ⟨calls_of_mem hs hl, takes_stored hs hl hkeeps⟩
  exact sound_of_session (sound_after hs h hcall) (insert_stored row l.name s).1.symm

theorem sound_update (hs : Schema layouts) (hl : l ∈ layouts) (h : Sound layouts s)
    (hkeeps : l.Keeps row) {version : Int64} (hversion : version ≠ Int64.maxValue) :
    Sound layouts (update l.name id (some version) row s).2 := by
  have hcall : (Call.update l.name id (some version) row.stored).Keeps layouts :=
    ⟨calls_of_mem hs hl, takes_stored hs hl hkeeps, fun heq => hversion (Option.some.inj heq),
      nofun⟩
  exact sound_of_session (sound_after hs h hcall)
    (update_stored row l.name s id (some version)).1.symm

theorem update_eq_ok {entity : String} {version : Int64} {answer : Row}
    (h : (update entity id (some version) row s).1 = .ok answer) :
    answer = raisedRow id row (some version) ∧
      (update entity id (some version) row s).2.cache = s.cache.put entity id answer := by
  unfold update at h ⊢
  simp only at h ⊢
  split at h
  · cases h
  · rcases numberAfter_cases version with ⟨-, hnext⟩ | ⟨-, hnext⟩ <;> rw [hnext] at h ⊢
    · obtain rfl := Except.ok.inj h
      exact ⟨rfl, rfl⟩
    · cases h
  · cases hstored : storedVersion entity id s <;> rw [hstored] at h <;> cases h

theorem kept_of_update (hs : Schema layouts) (hl : l ∈ layouts) (h : Sound layouts s)
    (hkeeps : l.Keeps row) {version : Int64} (hversion : version ≠ Int64.maxValue) {answer : Row}
    (hupdate : (update l.name id (some version) row s).1 = .ok answer) :
    answer = raisedRow id row (some version) ∧
      Kept l id answer (update l.name id (some version) row s).2 := by
  obtain ⟨hsession, hanswer⟩ := update_stored row l.name s id (some version)
  rw [hupdate] at hanswer
  obtain ⟨rfl, hcache⟩ := update_eq_ok hupdate
  refine ⟨rfl, ?_⟩
  have hexpected : some version ≠ some Int64.maxValue := fun heq => hversion (Option.some.inj heq)
  have hcall : (Call.update l.name id (some version) row.stored).Keeps layouts :=
    ⟨calls_of_mem hs hl, takes_stored hs hl hkeeps, hexpected, nofun⟩
  rcases update_cases hs h hcall with ⟨-, hwrote⟩ | ⟨e, herror, -⟩
  · rw [raisedRow_stored] at hwrote
    refine kept_of_wrote hs hl hwrote hsession.symm ?_
    rw [hcache, Cache.row?_put, if_pos ⟨rfl, rfl⟩]
  · rw [hanswer] at herror
    cases herror

end Relational

end RecordQuery
