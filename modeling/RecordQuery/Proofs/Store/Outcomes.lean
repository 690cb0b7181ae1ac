import RecordQuery.Proofs.Data.Integer
import RecordQuery.Proofs.Database.Contents

namespace RecordQuery.Relational

open RecordQuery.Database

inductive Call where
  | find (entity : String) (id : Int64)
  | insert (entity : String) (row : Row)
  | update (entity : String) (id : Int64) (expected : Option Int64) (row : Row)
  | evictAll
  | evictEntity (entity : String)
  | evict (entity : String) (id : Int64)
  | beginUnit
  | endUnit (commit : Bool)
  deriving DecidableEq

def after : Call → Relational → Relational
  | .find entity id, s => (find entity id s).2
  | .insert entity row, s => (insert entity row s).2
  | .update entity id expected row, s => (update entity id expected row s).2
  | .evictAll, s => Store.evictAll s
  | .evictEntity entity, s => Store.evictEntity entity s
  | .evict entity id, s => Store.evict entity id s
  | .beginUnit, s => (beginUnit s).2
  | .endUnit commit, s => (endUnit commit s).2

def afterAll : List Call → Relational → Relational
  | [], s => s
  | c :: rest, s => afterAll rest (after c s)

variable {layouts : List Layout} {l : Layout} {id : Int64} {s t : Relational}

structure Sound (layouts : List Layout) (s : Relational) : Prop where
  current : s.session.contents.Fits layouts
  saved : ∀ c, s.session.saved = some c → c.Fits layouts

structure Wrote (layouts : List Layout) (entity : String) (id : Int64) (row : Row)
    (s t : Relational) : Prop where
  saved : t.session.saved = s.session.saved
  cache : t.cache = s.cache.put entity id row
  record : ∃ l ∈ layouts, l.name = entity ∧ ∃ record,
    Contents.Writes layouts s.session.contents t.session.contents entity id record ∧
      l.Agrees ⟨id, record⟩ row

structure Failed (s t : Relational) : Prop where
  cache : t.cache = s.cache
  session : t.session = s.session ∨ t.session = ⟨s.session.saved.getD s.session.contents, none⟩

theorem failed_cases (session : Session) (fault : DatabaseFault) :
    session.failed fault = session ∨
      session.failed fault = ⟨session.saved.getD session.contents, none⟩ := by
  unfold Session.failed
  split
  · exact .inr rfl
  · exact .inl rfl

theorem Sound.of_wrote {entity : String} {row : Row} (h : Sound layouts s)
    (hwrote : Wrote layouts entity id row s t) : Sound layouts t := by
  obtain ⟨l, -, -, record, hwrites, -⟩ := hwrote.record
  exact ⟨hwrites.fits, hwrote.saved ▸ h.saved⟩

theorem Sound.of_failed (h : Sound layouts s) (hfailed : Failed s t) : Sound layouts t := by
  rcases hfailed.session with hsame | hundone
  · exact ⟨hsame ▸ h.current, hsame ▸ h.saved⟩
  · refine ⟨?_, ?_⟩
    · rw [hundone]
      cases hsaved : s.session.saved with
      | none => exact h.current
      | some c => exact h.saved c hsaved
    · intro c hc
      rw [hundone] at hc
      cases hc

def Call.Keeps (layouts : List Layout) : Call → Prop
  | .insert entity row => Calls layouts entity ∧
      ∀ l ∈ layouts, l.name = entity → ∀ name v, (bare row).get? name = some v → l.Takes name v
  | .update entity _ expected row => Calls layouts entity ∧
      (∀ l ∈ layouts, l.name = entity → ∀ name v, (bare row).get? name = some v → l.Takes name v) ∧
      expected ≠ some Int64.maxValue ∧ (expected = none → row.get? Row.versionColumn = none)
  | _ => True

def initialRow (row : Row) : Row :=
  if row.contains Row.versionColumn then row.put Row.versionColumn (.int 0) else row

theorem get?_initialRow (row : Row) (name : String) : (initialRow row).get? name =
    if name = Row.versionColumn then (row.get? name).map fun _ => .int 0 else row.get? name := by
  rw [initialRow, Keyed.contains]
  split
  · rename_i hgiven
    obtain ⟨v, hv⟩ := Option.isSome_iff_exists.mp hgiven
    rw [Keyed.get?_put]
    split
    · rename_i hname
      rw [hname, hv]
      rfl
    · rfl
  · rename_i hnone
    split
    · rename_i hname
      rw [hname, Option.not_isSome_iff_eq_none.mp hnone]
      rfl
    · rfl

theorem suits_inserted (hl : l.Proper) {row : Row}
    (hrow : ∀ name v, (bare row).get? name = some v → l.Takes name v) :
    l.Suits (withoutId (initialRow row)) := by
  have hne : Row.versionColumn ≠ Row.idColumn := by decide
  have hbare : bare (withoutId (initialRow row)) = bare row := by
    refine bare_congr fun name hid hversion => ?_
    rw [withoutId, Keyed.get?_erase, if_neg hid, get?_initialRow, if_neg hversion]
  refine hl.suits_of_bare (hbare ▸ hrow) fun v hv => ?_
  rw [withoutId, Keyed.get?_erase, if_neg hne, get?_initialRow, if_pos rfl] at hv
  obtain ⟨-, -, rfl⟩ := Option.map_eq_some_iff.mp hv
  exact ⟨0, rfl⟩

theorem insert_cases (hs : Schema layouts) (h : Sound layouts s) {entity : String} {row : Row}
    (hcall : (Call.insert entity row).Keeps layouts) :
    (∃ n, (insert entity row s).1 = .ok ((initialRow row).put Row.idColumn (.int n)) ∧
        Wrote layouts entity n ((initialRow row).put Row.idColumn (.int n)) s
          (insert entity row s).2) ∨
      ∃ e, (insert entity row s).1 = .error e ∧ Failed s (insert entity row s).2 := by
  obtain ⟨hname, hrow⟩ := hcall
  unfold insert
  rw [← initialRow]
  simp only
  split
  · rename_i fault _
    exact .inr ⟨_, rfl, rfl, failed_cases s.session fault⟩
  · rename_i n session hinsert
    have hsuits : ∀ l ∈ layouts, l.name = entity → l.Suits (withoutId (initialRow row)) :=
      fun l hl heq => suits_inserted (hs.proper l hl) (hrow l hl heq)
    obtain ⟨hsaved, l, hl, heq, hknown, -, hwrites⟩ :=
      Session.writes_of_insert hs h.current hname hsuits hinsert
    have hagrees := (hsuits l hl heq).agrees (hs.proper l hl)
      (fun name v hv _ => hknown name v hv) n Column.initial
    rw [withoutId, Keyed.put_erase] at hagrees
    exact .inl ⟨n, rfl, hsaved, rfl, l, hl, heq, _, hwrites, hagrees⟩

def raisedRow (id : Int64) (row : Row) : Option Int64 → Row
  | none => row.put Row.idColumn (.int id)
  | some version =>
      (row.put Row.idColumn (.int id)).put Row.versionColumn (.int (version + 1))

theorem get?_raisedRow_id (id : Int64) (row : Row) (expected : Option Int64) :
    (raisedRow id row expected).get? Row.idColumn = some (.int id) := by
  have hne : Row.idColumn ≠ Row.versionColumn := by decide
  cases expected with
  | none => rw [raisedRow, Keyed.get?_put, if_pos rfl]
  | some version => rw [raisedRow, Keyed.get?_put, if_neg hne, Keyed.get?_put, if_pos rfl]

theorem renewed_put_id {expected : Option Int64} {row : Row}
    (h : expected = none → row.get? Row.versionColumn = none) (id : Int64) :
    (renewed row expected).put Row.idColumn (.int id) = raisedRow id row expected := by
  have hne : Row.versionColumn ≠ Row.idColumn := by decide
  ext name
  cases expected with
  | none =>
      rw [renewed, raisedRow, bare, Keyed.get?_put, Keyed.get?_put, Keyed.get?_erase,
        Keyed.get?_erase]
      split
      · rfl
      · split
        · rename_i hversion
          rw [hversion, h rfl]
        · rfl
  | some version =>
      rw [renewed, raisedRow, bare, Keyed.get?_put, Keyed.get?_put, Keyed.get?_put, Keyed.get?_put,
        Keyed.get?_erase, Keyed.get?_erase]
      by_cases hversion : name = Row.versionColumn
      · rw [if_pos hversion, if_pos hversion, if_neg (hversion ▸ hne)]
      · rw [if_neg hversion, if_neg hversion]
        split <;> rfl

theorem suits_unguarded (hl : l.Proper) {row : Row}
    (hrow : ∀ name v, (bare row).get? name = some v → l.Takes name v)
    (hversion : row.get? Row.versionColumn = none) (id : Int64) :
    l.Suits (row.put Row.idColumn (.int id)) := by
  have hne : Row.versionColumn ≠ Row.idColumn := by decide
  refine hl.suits_of_bare ?_ ?_
  · rwa [bare_put_id]
  · intro v hv
    rw [Keyed.get?_put, if_neg hne, hversion] at hv
    cases hv

theorem renewed_congr {row other : Row} (h : bare row = bare other) (expected : Option Int64) :
    renewed row expected = renewed other expected := by
  cases expected with
  | none => exact h
  | some version => rw [renewed, renewed, h]

theorem table?_of_rowExists {entity : String} {found : Bool}
    (h : rowExists entity id s = .ok found) :
    ∃ table, s.session.contents.table? entity = .ok table := by
  simp only [rowExists, valuesOf, bind_eq_ok] at h
  obtain ⟨-, ⟨table, htable, -⟩, -⟩ := h
  unfold tableOf at htable
  split at htable
  · rename_i selected hselect
    unfold Session.select at hselect
    split at hselect
    · cases hselect
    · exact ⟨selected, hselect⟩
  · cases htable

theorem agrees_of_assigned_nil (hl : l.Proper) {row : Row}
    (hempty : (assigned (row.put Row.idColumn (.int id))).isEmpty = true)
    (hversion : row.get? Row.versionColumn = none) (record : Record) :
    l.Agrees ⟨id, record⟩ (row.put Row.idColumn (.int id)) := by
  have hnone : bare row = Keyed.empty := by
    rw [← bare_put_id row (.int id)]
    ext name
    have hentries : (bare (row.put Row.idColumn (.int id))).entries = [] := by
      simpa [assigned, cellsOf, bare] using hempty
    rw [Keyed.get?, hentries]
    rfl
  intro name v hv
  rw [Keyed.get?_put] at hv
  split at hv
  · rename_i hname
    rw [hname, ← Option.some.inj hv, hl.regular.cellOf_id]
    exact ⟨hl.regular.mem_names.mpr (.inl rfl), trivial, rfl⟩
  · rename_i hid
    have hne : name ≠ Row.versionColumn := by
      rintro rfl
      rw [hversion] at hv
      cases hv
    rw [← get?_bare hid hne, hnone] at hv
    cases hv

theorem change_cases (hs : Schema layouts) (h : Sound layouts s) {entity : String} {row : Row}
    {expected : Option Int64} (hcall : (Call.update entity id expected row).Keeps layouts)
    {done : Bool} {session : Session}
    (hchange : change entity id expected (row.put Row.idColumn (.int id)) s = .ok (done, session)) :
    (done = false ∧ session = s.session) ∨
      done = true ∧ Wrote layouts entity id (raisedRow id row expected) s
        { s with
          session := session
          cache := s.cache.put entity id (raisedRow id row expected) } := by
  obtain ⟨hname, hrow, hexpected, hversion⟩ := hcall
  unfold change at hchange
  split at hchange
  · rename_i hnothing
    obtain ⟨hempty, hnone⟩ := Bool.and_eq_true_iff.mp hnothing
    obtain rfl := Option.isNone_iff_eq_none.mp hnone
    obtain ⟨found, hfound, hdone⟩ := map_eq_ok.mp hchange
    obtain ⟨rfl, rfl⟩ := Prod.mk.inj hdone
    obtain ⟨table, htable⟩ := table?_of_rowExists hfound
    obtain ⟨-, hl, rfl⟩ := h.current.layout_of_table? hname htable
    rw [rowExists_eq hs h.current hl] at hfound
    obtain rfl := Except.ok.inj hfound
    cases hrecord : s.session.contents.record? table.layout.name id with
    | none => exact .inl ⟨rfl, rfl⟩
    | some record =>
        have hagrees := agrees_of_assigned_nil (hs.proper _ hl) hempty (hversion rfl) record
        have hsame : Contents.Writes layouts s.session.contents s.session.contents
            table.layout.name id record := ⟨h.current, hrecord, fun _ _ _ _ => rfl⟩
        exact .inr ⟨rfl, rfl, rfl, _, hl, rfl, record, hsame, hagrees⟩
  · split at hchange
    · rename_i result hupdate
      obtain rfl := Except.ok.inj hchange
      have hgiven : ∀ l ∈ layouts, l.name = entity → ∀ name v,
          (bare (row.put Row.idColumn (.int id))).get? name = some v → l.Takes name v := by
        rwa [bare_put_id]
      obtain ⟨hsaved, ⟨rfl, hsame⟩ | ⟨rfl, l, hl, heq, hknown, rest, hwrites⟩⟩ :=
        Session.writes_of_update hs h.current hname hgiven hexpected hupdate
      · left
        refine ⟨rfl, ?_⟩
        obtain ⟨contents, saved⟩ := session
        obtain rfl : contents = s.session.contents := hsame
        obtain rfl : saved = s.session.saved := hsaved
        rfl
      · rw [renewed_congr (bare_put_id row _)] at hknown hwrites
        have hproper := hs.proper l hl
        have hagrees := (hproper.suits_renewed (hrow l hl heq) expected).agrees hproper
          (fun name v hv _ => hknown name v hv) id rest
        rw [renewed_put_id hversion] at hagrees
        exact .inr ⟨rfl, hsaved, rfl, l, hl, heq, _, hwrites, hagrees⟩
    · cases hchange

theorem update_cases (hs : Schema layouts) (h : Sound layouts s) {entity : String} {row : Row}
    {expected : Option Int64} (hcall : (Call.update entity id expected row).Keeps layouts) :
    ((update entity id expected row s).1 = .ok (raisedRow id row expected) ∧
        Wrote layouts entity id (raisedRow id row expected) s
          (update entity id expected row s).2) ∨
      ∃ e, (update entity id expected row s).1 = .error e ∧
        Failed s (update entity id expected row s).2 := by
  have hsame : Failed s s := ⟨rfl, .inl rfl⟩
  unfold update
  simp only
  split
  · exact .inr ⟨_, rfl, hsame⟩
  · rename_i session hchange
    rcases change_cases hs h hcall hchange with ⟨⟨⟩, -⟩ | ⟨-, hwrote⟩
    cases expected with
    | none => exact .inl ⟨rfl, hwrote⟩
    | some version =>
        have hroom : version < Int64.maxValue :=
          Integer.lt_maxValue_of_ne fun hlast => hcall.2.2.1 (congrArg some hlast)
        simp only [numberAfter_of_lt hroom]
        exact .inl ⟨rfl, hwrote⟩
  · rename_i session hchange
    rcases change_cases hs h hcall hchange with ⟨-, rfl⟩ | ⟨⟨⟩, -⟩
    cases expected with
    | some version =>
        right
        simp only
        split
        · exact ⟨_, rfl, hsame⟩
        · exact ⟨_, rfl, hsame⟩
    | none =>
        obtain ⟨hname, hrow, -, hversion⟩ := hcall
        simp only
        split
        · rename_i fault _
          exact .inr ⟨_, rfl, rfl, failed_cases s.session fault⟩
        · rename_i n session hinsert
          have hsuits : ∀ l ∈ layouts, l.name = entity → l.Suits (row.put Row.idColumn (.int id)) :=
            fun l hl heq => suits_unguarded (hs.proper l hl) (hrow l hl heq) (hversion rfl) id
          obtain ⟨hsaved, l, hl, heq, hknown, hnumber, hwrites⟩ :=
            Session.writes_of_insert hs h.current hname hsuits hinsert
          obtain rfl := hnumber id (by rw [Keyed.get?_put, if_pos rfl])
          refine .inl ⟨rfl, hsaved, rfl, l, hl, heq, _, hwrites, ?_⟩
          have hagrees := (hsuits l hl heq).agrees (hs.proper l hl)
            (fun name v hv _ => hknown name v hv) n Column.initial
          have htwice : ∀ v : Value, (row.put Row.idColumn v).put Row.idColumn v =
              row.put Row.idColumn v := fun v => Keyed.put_get? (by rw [Keyed.get?_put, if_pos rfl])
          rwa [htwice] at hagrees

theorem find_of_cached {entity : String} {row : Row} (h : s.cache.row? entity id = some row) :
    find entity id s = (.ok (some row), { s with cache := (s.cache.get entity id).2 }) := by
  rw [find, Cache.get, h]

section

variable {entity : String} (h : s.cache.row? entity id = none)

include h

theorem get_of_missing : s.cache.get entity id = (none, (s.cache.get entity id).2) :=
  Prod.ext ((Cache.get_fst ..).trans h) rfl

theorem find_of_fault {e : StoreError}
    (hrows : rowsOf entity (byId entity .rows id) s = .error e) :
    find entity id s = (.error e, { s with cache := (s.cache.get entity id).2 }) := by
  rw [find, get_of_missing h]
  simp only [hrows]

theorem find_of_nil (hrows : rowsOf entity (byId entity .rows id) s = .ok []) :
    find entity id s = (.ok none, { s with cache := (s.cache.get entity id).2 }) := by
  rw [find, get_of_missing h]
  simp only [hrows]

theorem find_of_cons {row : Row} {rest : List Row}
    (hrows : rowsOf entity (byId entity .rows id) s = .ok (row :: rest)) :
    find entity id s =
      (.ok (some row), { s with cache := (s.cache.get entity id).2.put entity id row }) := by
  rw [find, get_of_missing h]
  simp only [hrows]

end

theorem find_cases (entity : String) (id : Int64) (s : Relational) :
    (find entity id s).2 = { s with cache := (s.cache.get entity id).2 } ∨
      ∃ row rest, rowsOf entity (byId entity .rows id) s = .ok (row :: rest) ∧
        (find entity id s).2 =
          { s with cache := (s.cache.get entity id).2.put entity id row } := by
  cases h : s.cache.row? entity id with
  | some row => exact .inl (congrArg Prod.snd (find_of_cached h))
  | none =>
      cases hrows : rowsOf entity (byId entity .rows id) s with
      | error e => exact .inl (congrArg Prod.snd (find_of_fault h hrows))
      | ok rows =>
          cases rows with
          | nil => exact .inl (congrArg Prod.snd (find_of_nil h hrows))
          | cons row rest => exact .inr ⟨row, rest, rfl, congrArg Prod.snd (find_of_cons h hrows)⟩

theorem session_find (entity : String) (id : Int64) (s : Relational) :
    (find entity id s).2.session = s.session := by
  rcases find_cases entity id s with hfind | ⟨row, rest, -, hfind⟩ <;> rw [hfind]

theorem row?_cache_find {entity e : String} {i : Int64} (hkey : ¬(e = entity ∧ i = id)) :
    (find entity id s).2.cache.row? e i = s.cache.row? e i := by
  rcases find_cases entity id s with hfind | ⟨row, rest, -, hfind⟩
  · rw [hfind]
    exact Cache.row?_get ..
  · rw [hfind, Cache.row?_put, if_neg hkey, Cache.row?_get]

theorem begin_cases (s : Relational) :
    after .beginUnit s = s ∨ s.session.saved = none ∧ (after .beginUnit s).cache = s.cache ∧
      (after .beginUnit s).session = ⟨s.session.contents, some s.session.contents⟩ := by
  simp only [after, beginUnit]
  split
  · exact .inl rfl
  · unfold Session.begin
    cases hsaved : s.session.saved with
    | none => exact .inr ⟨rfl, rfl, rfl⟩
    | some contents => exact .inl rfl

theorem end_cases (commit : Bool) (s : Relational) :
    (after (.endUnit commit) s).cache = s.cache ∧
      ((after (.endUnit commit) s).session = s.session ∨
        ∃ contents, s.session.saved = some contents ∧ (after (.endUnit commit) s).session =
          ⟨if commit then s.session.contents else contents, none⟩) := by
  simp only [after, endUnit]
  split
  · exact ⟨rfl, .inl rfl⟩
  · simp only [Session.commit, Session.rollback]
    cases hsaved : s.session.saved with
    | none => cases commit <;> exact ⟨rfl, .inl rfl⟩
    | some contents => cases commit <;> exact ⟨rfl, .inr ⟨contents, rfl, rfl⟩⟩

theorem sound_of_session (h : Sound layouts s) (hsession : t.session = s.session) :
    Sound layouts t :=
  ⟨hsession ▸ h.current, hsession ▸ h.saved⟩

theorem sound_after (hs : Schema layouts) (h : Sound layouts s) {c : Call}
    (hcall : c.Keeps layouts) : Sound layouts (after c s) := by
  cases c with
  | find entity i => exact sound_of_session h (session_find entity i s)
  | insert entity row =>
      rcases insert_cases hs h hcall with ⟨n, -, hwrote⟩ | ⟨e, -, hfailed⟩
      · exact h.of_wrote hwrote
      · exact h.of_failed hfailed
  | update entity i expected row =>
      rcases update_cases hs h hcall with ⟨-, hwrote⟩ | ⟨e, -, hfailed⟩
      · exact h.of_wrote hwrote
      · exact h.of_failed hfailed
  | evictAll => exact sound_of_session h rfl
  | evictEntity entity => exact sound_of_session h rfl
  | evict entity i => exact sound_of_session h rfl
  | beginUnit =>
      rcases begin_cases s with hsame | ⟨-, -, hsession⟩
      · exact hsame.symm ▸ h
      · refine ⟨?_, ?_⟩ <;> rw [hsession]
        · exact h.current
        · rintro c ⟨⟩
          exact h.current
  | endUnit commit =>
      obtain ⟨-, hsame | ⟨contents, hopen, hsession⟩⟩ := end_cases commit s
      · exact sound_of_session h hsame
      · refine ⟨?_, ?_⟩ <;> rw [hsession]
        · cases commit with
          | true => exact h.current
          | false => exact h.saved contents hopen
        · exact nofun

theorem sound_afterAll (hs : Schema layouts) {calls : List Call}
    (hcalls : ∀ c ∈ calls, c.Keeps layouts) (h : Sound layouts s) :
    Sound layouts (afterAll calls s) := by
  induction calls generalizing s with
  | nil => exact h
  | cons c rest ih =>
      obtain ⟨hcall, hrest⟩ := List.forall_mem_cons.mp hcalls
      exact ih hrest (sound_after hs h hcall)

def Call.GivesAll (layouts : List Layout) : Call → Prop
  | .insert entity row => ∀ l ∈ layouts, l.name = entity → ∀ c ∈ l.columns, row.contains c.name
  | .update entity _ expected row => ∀ l ∈ layouts, l.name = entity → ∀ c ∈ l.columns,
      row.contains c.name ∨ expected.isSome ∧ c.name = Row.versionColumn
  | _ => True

def AllWhole (l : Layout) (s : Relational) : Prop :=
  ∀ id row, s.cache.row? l.name id = some row → l.IsWhole row

theorem contains_put {row : Row} {name column : String} (v : Value)
    (h : name = column ∨ row.contains name) : (row.put column v).contains name := by
  rw [Keyed.contains, Keyed.get?_put]
  split
  · rfl
  · exact h.resolve_left ‹_›

theorem isWhole_of_columns (hl : l.Proper) {row : Row} (hid : row.contains Row.idColumn)
    (hcolumns : ∀ c ∈ l.columns, row.contains c.name) : l.IsWhole row := by
  intro name hname
  rcases hl.regular.mem_names.mp hname with rfl | ⟨c, hc, rfl⟩
  · exact hid
  · exact hcolumns c hc

theorem isWhole_inserted (hl : l.Proper) {row : Row} (hrow : ∀ c ∈ l.columns, row.contains c.name)
    (n : Int64) : l.IsWhole ((initialRow row).put Row.idColumn (.int n)) := by
  refine isWhole_of_columns hl (contains_put _ (.inl rfl)) fun c hc => contains_put _ (.inr ?_)
  unfold initialRow
  split
  · exact contains_put _ (.inr (hrow c hc))
  · exact hrow c hc

theorem isWhole_updated (hl : l.Proper) {row : Row} {expected : Option Int64}
    (hrow : ∀ c ∈ l.columns, row.contains c.name ∨ expected.isSome ∧ c.name = Row.versionColumn)
    (id : Int64) : l.IsWhole (raisedRow id row expected) := by
  cases expected with
  | none =>
      refine isWhole_of_columns hl (contains_put _ (.inl rfl)) fun c hc => contains_put _ (.inr ?_)
      exact (hrow c hc).resolve_right fun h => absurd h.1 Bool.false_ne_true
  | some version =>
      refine isWhole_of_columns hl
        (contains_put _ (.inr (contains_put _ (.inl rfl)))) fun c hc => ?_
      rcases hrow c hc with hgiven | ⟨-, hversion⟩
      · exact contains_put _ (.inr (contains_put _ (.inr hgiven)))
      · exact contains_put _ (.inl hversion)

theorem AllWhole.put (h : AllWhole l s) {entity : String} {row : Row}
    (hcache : t.cache = s.cache.put entity id row) (hrow : l.name = entity → l.IsWhole row) :
    AllWhole l t := by
  intro i r hr
  rw [hcache, Cache.row?_put] at hr
  split at hr
  · rename_i hkey
    obtain rfl := Option.some.inj hr
    exact hrow hkey.1
  · exact h i r hr

theorem AllWhole.of_row? (h : AllWhole l s)
    (hrow : ∀ i row, t.cache.row? l.name i = some row → s.cache.row? l.name i = some row) :
    AllWhole l t :=
  fun i row hr => h i row (hrow i row hr)

theorem AllWhole.step (h : AllWhole l s) (hs : Schema layouts) (hsound : Sound layouts s)
    (hl : l ∈ layouts) {c : Call} (hcall : c.Keeps layouts) (hall : c.GivesAll layouts) :
    AllWhole l (after c s) := by
  cases c with
  | find entity i =>
      rcases find_cases entity i s with hfind | ⟨row, rest, hrows, hfind⟩
      · refine h.of_row? fun j r hr => ?_
        rw [after, hfind] at hr
        exact (Cache.row?_get ..).symm.trans hr
      · have hget : AllWhole l { s with cache := (s.cache.get entity i).2 } :=
          h.of_row? fun j r hr => (Cache.row?_get ..).symm.trans hr
        refine hget.put (congrArg Relational.cache hfind) ?_
        rintro rfl
        rcases rowsOf_byId hs hsound.current hl i with ⟨-, hnil⟩ |
          ⟨record, found, -, hfound, hwhole, -⟩
        · rw [hrows] at hnil
          cases hnil
        · rw [hrows] at hfound
          obtain ⟨rfl, -⟩ := List.cons.inj (Except.ok.inj hfound)
          exact hwhole
  | insert entity row =>
      rcases insert_cases hs hsound hcall with ⟨n, -, hwrote⟩ | ⟨e, -, hfailed⟩
      · refine h.put hwrote.cache fun heq => ?_
        exact isWhole_inserted (hs.proper l hl) (hall l hl heq) n
      · exact h.of_row? fun i r hr => hfailed.cache ▸ hr
  | update entity i expected row =>
      rcases update_cases hs hsound hcall with ⟨-, hwrote⟩ | ⟨e, -, hfailed⟩
      · refine h.put hwrote.cache fun heq => ?_
        exact isWhole_updated (hs.proper l hl) (hall l hl heq) i
      · exact h.of_row? fun i r hr => hfailed.cache ▸ hr
  | evictAll => exact nofun
  | evictEntity entity =>
      refine h.of_row? fun i r hr => ?_
      have hkept := (Cache.row?_evictEntity ..).symm.trans hr
      split at hkept
      · cases hkept
      · exact hkept
  | evict entity j =>
      refine h.of_row? fun i r hr => ?_
      have hkept := (Cache.row?_evict ..).symm.trans hr
      split at hkept
      · cases hkept
      · exact hkept
  | beginUnit =>
      rcases begin_cases s with hsame | ⟨-, hcache, -⟩
      · exact hsame.symm ▸ h
      · exact h.of_row? fun i r hr => hcache ▸ hr
  | endUnit commit => exact h.of_row? fun i r hr => (end_cases commit s).1 ▸ hr

theorem AllWhole.run (hs : Schema layouts) (hl : l ∈ layouts) (calls : List Call)
    (hcalls : ∀ c ∈ calls, c.Keeps layouts) (hall : ∀ c ∈ calls, c.GivesAll layouts)
    (hsound : Sound layouts s) (h : AllWhole l s) : AllWhole l (afterAll calls s) := by
  induction calls generalizing s with
  | nil => exact h
  | cons c rest ih =>
      obtain ⟨hcall, hrest⟩ := List.forall_mem_cons.mp hcalls
      obtain ⟨hgives, hothers⟩ := List.forall_mem_cons.mp hall
      exact ih hrest hothers (sound_after hs hsound hcall) (h.step hs hsound hl hcall hgives)

theorem AllWhole.find (h : AllWhole l s) (hs : Schema layouts) (hsound : Sound layouts s)
    (hl : l ∈ layouts) {row : Row} (hfound : (find l.name id s).1 = .ok (some row)) :
    l.IsWhole row := by
  cases hcached : s.cache.row? l.name id with
  | some r =>
      rw [find_of_cached hcached] at hfound
      obtain rfl := Option.some.inj (Except.ok.inj hfound)
      exact h id r hcached
  | none =>
      rcases rowsOf_byId hs hsound.current hl id with ⟨-, hrows⟩ |
        ⟨record, r, -, hrows, hwhole, -⟩
      · rw [find_of_nil hcached hrows] at hfound
        cases hfound
      · rw [find_of_cons hcached hrows] at hfound
        obtain rfl := Option.some.inj (Except.ok.inj hfound)
        exact hwhole

end RecordQuery.Relational
