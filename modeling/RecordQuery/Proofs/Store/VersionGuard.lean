import RecordQuery.Proofs.Data.Integer
import RecordQuery.Proofs.Database.Versions
import RecordQuery.Proofs.Store.Rollback

namespace RecordQuery.Relational

open RecordQuery.Database

inductive Mark where
  | inserted (id : Int64)
  | raised (id : Int64)
  | begun
  | committed
  | undone
  deriving DecidableEq

def written? : Call → Relational → Option Mark
  | .insert entity row, s =>
      (((insert entity row s).1.toOption.bind (·.get? Row.idColumn)).bind Value.asInt).map .inserted
  | .update entity id expected row, s =>
      if (update entity id expected row s).1.isOk then some (.raised id) else none
  | _, _ => none

def mark? (c : Call) (s : Relational) : Option Mark :=
  match written? c s with
  | some m => some m
  | none =>
      match s.session.saved, (after c s).session.saved with
      | none, some _ => some .begun
      | some _, none => some (if c = .endUnit true then .committed else .undone)
      | _, _ => none

def history : List Call → Relational → List Mark
  | [], _ => []
  | c :: rest, s => history rest (after c s) ++ (mark? c s).toList

def kept : Bool → List Mark → List Mark
  | _, [] => []
  | _, .begun :: earlier => kept false earlier
  | _, .committed :: earlier => kept false earlier
  | _, .undone :: earlier => kept true earlier
  | isUndone, write :: earlier =>
      if isUndone then kept isUndone earlier else write :: kept isUndone earlier

def tally (id : Int64) : List Mark → Option Nat
  | [] => none
  | .inserted i :: earlier => if i = id then some 0 else tally id earlier
  | .raised i :: earlier =>
      if i = id then (tally id earlier).map (· + 1) else tally id earlier
  | _ :: earlier => tally id earlier

/-- Insertions of rows with a version into one table and guarded updates there; no update has to
raise the largest integer. All other calls are free. -/
def Call.Guards (l : Layout) (s : Relational) : Call → Prop
  | .insert entity row =>
      folded entity = folded l.name ∧ l.Spells row ∧ row.contains Row.versionColumn = true
  | .update entity id expected row =>
      folded entity = folded l.name ∧ l.Spells row ∧ ∃ v, expected = some v ∧
        (v = Int64.maxValue → s.session.contents.version? l.name id ≠ some Int64.maxValue)
  | _ => True

def Guarded (l : Layout) : List Call → Relational → Prop
  | [], _ => True
  | c :: rest, s => c.Guards l s ∧ Guarded l rest (after c s)

variable {l : Layout} {t u : Table} {s : Relational} {c : Call} {marks : List Mark} {id v : Int64}

theorem session_withCache (s : Relational) (cache : Cache) :
    (Store.withCache s cache).session = s.session := rfl

theorem spells_initialRow (hl : l.Versioned) {row : Row} (h : l.Spells row) :
    ∀ x ∈ (withoutId (initialRow row)).entries, l.Exact x.1 := by
  intro x hx
  have hget := Keyed.mem_entries_iff.mp hx
  by_cases hversion : x.1 = Row.versionColumn
  · exact hversion ▸ hl.exact_version
  · by_cases hid : x.1 = Row.idColumn
    · rw [hid, withoutId, Keyed.get?_erase, if_pos rfl] at hget
      cases hget
    · rw [withoutId, Keyed.get?_erase, if_neg hid, get?_initialRow, if_neg hversion] at hget
      exact (h _ _ hget).1

theorem version_initialRow {row : Row} (h : row.contains Row.versionColumn = true) :
    (withoutId (initialRow row)).get? Row.versionColumn = some (.int 0) := by
  have hne : Row.versionColumn ≠ Row.idColumn := by decide
  rw [withoutId, Keyed.get?_erase, if_neg hne, initialRow, if_pos h, Keyed.get?_put, if_pos rfl]

structure Counts (marks : List Mark) (t : Table) : Prop where
  versions : ∀ id, (t.version? id).map Int64.toInt = (tally id marks).map Int.ofNat
  allVersioned : t.AllVersioned

theorem Counts.inserted (h : Counts marks t) (hwrites : t.Writes u id 0) :
    Counts (.inserted id :: marks) u := by
  refine ⟨fun i => ?_, hwrites.allVersioned h.allVersioned⟩
  rw [hwrites.version?, tally]
  by_cases hi : i = id
  · rw [if_pos hi, if_pos hi.symm]
    rfl
  · rw [if_neg hi, if_neg (Ne.symm hi)]
    exact h.versions i

theorem Counts.raised (h : Counts marks t) (hversion : t.version? id = some v)
    (hbelow : v < Int64.maxValue) (hwrites : t.Writes u id (v + 1)) :
    Counts (.raised id :: marks) u := by
  refine ⟨fun i => ?_, hwrites.allVersioned h.allVersioned⟩
  rw [hwrites.version?, tally]
  by_cases hi : i = id
  · have hcount := h.versions id
    rw [hversion] at hcount
    obtain ⟨n, hn, htoInt⟩ := Option.map_eq_some_iff.mp hcount.symm
    rw [if_pos hi, if_pos hi.symm, hi, hn, Option.map_some, Integer.toInt_succ hbelow, ← htoInt]
    rfl
  · rw [if_neg hi, if_neg (Ne.symm hi)]
    exact h.versions i

theorem counts_empty : Counts [] ⟨l, .empty⟩ :=
  ⟨fun _ => rfl, nofun⟩

theorem Counts.isSome (h : Counts marks t) (id : Int64) :
    (t.records.get? id).isSome = (tally id marks).isSome := by
  have hcount := congrArg Option.isSome (h.versions id)
  rw [Option.isSome_map, Option.isSome_map] at hcount
  rw [← hcount]
  cases hrecord : t.records.get? id with
  | none =>
      rw [Table.version?, hrecord]
      rfl
  | some record => exact (h.allVersioned id record hrecord).symm

def Tallied (l : Layout) (marks : List Mark) (c : Contents) : Prop :=
  ∃ t, c.Has l t ∧ Counts marks t

structure Accounted (l : Layout) (marks : List Mark) (s : Relational) : Prop where
  current : Tallied l (kept false marks) s.session.contents
  saved : ∀ c, s.session.saved = some c → Tallied l (kept true marks) c

theorem mark?_of_written {m : Mark} (h : written? c s = some m) : mark? c s = some m := by
  rw [mark?, h]

theorem mark?_quiet (h : written? c s = none)
    (hsaved : (after c s).session.saved = s.session.saved) : mark? c s = none := by
  rw [mark?, h, hsaved]
  cases s.session.saved <;> rfl

theorem mark?_ended (h : written? c s = none) {contents : Contents}
    (hopen : s.session.saved = some contents) (hclosed : (after c s).session.saved = none) :
    mark? c s = some (if c = .endUnit true then .committed else .undone) := by
  rw [mark?, h, hopen, hclosed]

theorem Accounted.quiet (h : Accounted l marks s) (hwritten : written? c s = none)
    (hsession : (after c s).session = s.session) :
    Accounted l ((mark? c s).toList ++ marks) (after c s) := by
  rw [mark?_quiet hwritten (congrArg Session.saved hsession)]
  exact ⟨hsession ▸ h.current, hsession ▸ h.saved⟩

theorem Accounted.wrote (h : Accounted l marks s) {m : Mark} (hwritten : written? c s = some m)
    (hm : ∀ isUndone, kept isUndone (m :: marks) =
      if isUndone then kept isUndone marks else m :: kept isUndone marks)
    (hsaved : (after c s).session.saved = s.session.saved)
    (hcurrent : Tallied l (m :: kept false marks) (after c s).session.contents) :
    Accounted l ((mark? c s).toList ++ marks) (after c s) := by
  rw [mark?_of_written hwritten, Option.toList_some, List.singleton_append]
  refine ⟨?_, ?_⟩
  · rwa [hm]
  · rw [hsaved, hm]
    exact h.saved

theorem Accounted.undone (h : Accounted l marks s) (hwritten : written? c s = none)
    (hc : c ≠ .endUnit true) {contents : Contents} (hopen : s.session.saved = some contents)
    (hsession : (after c s).session = ⟨contents, none⟩) :
    Accounted l ((mark? c s).toList ++ marks) (after c s) := by
  rw [mark?_ended hwritten hopen (congrArg Session.saved hsession), if_neg hc]
  refine ⟨?_, ?_⟩ <;> rw [hsession]
  · exact h.saved contents hopen
  · exact nofun

theorem failed_or_undone (session : Session) (fault : DatabaseFault) :
    session.failed fault = session ∨ ∃ contents, session.saved = some contents ∧
      session.failed fault = ⟨contents, none⟩ := by
  obtain ⟨current, saved⟩ := session
  rcases failed_cases ⟨current, saved⟩ fault with hsame | hundone
  · exact .inl hsame
  · cases saved with
    | none => exact .inl hundone
    | some contents => exact .inr ⟨contents, rfl, hundone⟩

theorem Accounted.insert (hl : l.Versioned) (h : Accounted l marks s) {entity : String} {row : Row}
    (hcall : (Call.insert entity row).Guards l s) :
    Accounted l ((mark? (.insert entity row) s).toList ++ marks)
      (after (.insert entity row) s) := by
  obtain ⟨hname, hrow, hversion⟩ := hcall
  cases hinsert : s.session.insert entity (cellsOf (withoutId (initialRow row))) with
  | error fault =>
      have hfails : Relational.insert entity row s =
          (.error (.sql (.insert entity fault)), { s with session := s.session.failed fault }) := by
        unfold Relational.insert
        rw [← initialRow]
        simp only [hinsert]
      have hwritten : written? (.insert entity row) s = none := by
        rw [written?, hfails]
        rfl
      have hsession : (after (.insert entity row) s).session = s.session.failed fault := by
        rw [after, hfails]
      rcases failed_or_undone s.session fault with hsame | ⟨contents, hopen, hundone⟩
      · exact h.quiet hwritten (hsession.trans hsame)
      · exact h.undone hwritten (by simp) hopen (hsession.trans hundone)
  | ok result =>
      obtain ⟨n, session⟩ := result
      have hanswers : Relational.insert entity row s =
          (.ok ((initialRow row).put Row.idColumn (.int n)), { s with
            session := session
            cache := s.cache.put entity n ((initialRow row).put Row.idColumn (.int n)) }) := by
        unfold Relational.insert
        rw [← initialRow]
        simp only [hinsert]
      have hwritten : written? (.insert entity row) s = some (.inserted n) := by
        rw [written?, hanswers]
        simp [Except.toOption, Value.asInt]
      obtain ⟨t, ht, hcounts⟩ := h.current
      obtain ⟨hsaved, u, hu, hwrites⟩ := Session.insert_version hl ht hname
        (spells_initialRow hl hrow) (version_initialRow hversion) hinsert
      refine h.wrote hwritten (fun _ => rfl) ?_ ?_ <;> rw [after, hanswers]
      · exact hsaved
      · exact ⟨u, hu, hcounts.inserted hwrites⟩

theorem assigned_put_id (row : Row) (w : Value) :
    assigned (row.put Row.idColumn w) = assigned row :=
  congrArg cellsOf (bare_put_id row w)

theorem storedVersion_eq (hl : l.Regular) (h : s.session.contents.Has l t) (id : Int64)
    (hkind : ∀ record, t.records.get? id = some record →
      cellOf l ⟨id, record⟩ (.field Row.versionColumn) = .null ∨
        ∃ n, cellOf l ⟨id, record⟩ (.field Row.versionColumn) = .int n)
    {entity : String} (hname : folded entity = folded l.name) (hplain : '\x00' ∉ entity.toList) :
    storedVersion entity id s = .ok (t.version? id) := by
  obtain rfl := h.layout
  have hselect : s.session.select (byId entity (.column Row.versionColumn) id) = .ok t :=
    table?_of_checks (checkSelect_byId hplain rfl id) (h.table? hname)
  rw [storedVersion, valuesOf_of_select hl hselect, Table.version?]
  cases hrecord : t.records.get? id with
  | none => rfl
  | some record =>
      rw [Option.map_some, Option.bind_some]
      rcases hkind record hrecord with hcell | ⟨n, hcell⟩
      · rw [hcell]
        rfl
      · rw [hcell]
        rfl

section

variable {entity : String} {row : Row}

theorem update_of_refused {expected : Option Int64}
    (hgiven : ((assigned row).isEmpty && expected.isNone) = false) {fault : DatabaseFault}
    (h : s.session.update entity id expected (assigned row) = .error fault) :
    update entity id expected row s = (.error (.sql (.update entity id fault)), s) := by
  have hchange : change entity id expected (row.put Row.idColumn (.int id)) s =
      .error (.sql (.update entity id fault)) := by
    rw [change, assigned_put_id, hgiven, if_neg Bool.false_ne_true, h]
  unfold Relational.update
  simp only [hchange]

theorem change_of_update {expected : Option Int64}
    (hgiven : ((assigned row).isEmpty && expected.isNone) = false) {result : Bool × Session}
    (h : s.session.update entity id expected (assigned row) = .ok result) :
    change entity id expected (row.put Row.idColumn (.int id)) s = .ok result := by
  rw [change, assigned_put_id, hgiven, if_neg Bool.false_ne_true, h]

theorem update_guarded (hl : l.Versioned) (h : s.session.contents.Has l t) (ht : t.AllVersioned)
    (hcall : (Call.update entity id (some v) row).Guards l s) {result : Bool × Session}
    (hupdate : s.session.update entity id (some v) (assigned row) = .ok result) :
    (t.version? id ≠ some v ∧ update entity id (some v) row s =
        (.error (.versionConflict entity id v (t.version? id)), s)) ∨
      t.version? id = some v ∧ v < Int64.maxValue ∧
        (update entity id (some v) row s).1 = .ok (raisedRow id row (some v)) ∧
        (update entity id (some v) row s).2.session.saved = s.session.saved ∧
        ∃ u, (update entity id (some v) row s).2.session.contents.Has l u ∧
          t.Writes u id (v + 1) := by
  obtain ⟨hname, hrow, w, hw, hbelow⟩ := hcall
  obtain rfl := Option.some.inj hw
  rw [h.version?] at hbelow
  obtain ⟨done, session⟩ := result
  have hchange := change_of_update (Bool.and_false _) hupdate
  rcases Session.update_guard hl h ht hname hrow hbelow hupdate with
    ⟨hversion, rfl, -⟩ | ⟨hversion, rfl, hsaved, u, hu, hwrites⟩
  · have hstored := storedVersion_eq hl.toRegular h id
      (fun record hrecord => .inr (h.layout ▸ ht.cell hrecord))
      hname (Session.plain_of_update hupdate)
    refine .inl ⟨hversion, ?_⟩
    unfold Relational.update
    simp only [hchange, hstored]
  · have hroom : v < Int64.maxValue :=
      Integer.lt_maxValue_of_ne fun hmax => hbelow hmax (hmax ▸ hversion)
    have hraised : update entity id (some v) row s =
        put entity id (raisedRow id row (some v)) session s := by
      unfold Relational.update
      simp only [hchange, numberAfter_of_lt hroom]
      rfl
    rw [hraised]
    exact .inr ⟨hversion, hroom, rfl, hsaved, u, hu, hwrites⟩

theorem Accounted.update (hl : l.Versioned) (h : Accounted l marks s) {expected : Option Int64}
    (hcall : (Call.update entity id expected row).Guards l s) :
    Accounted l ((mark? (.update entity id expected row) s).toList ++ marks)
      (after (.update entity id expected row) s) := by
  obtain ⟨v, rfl⟩ : ∃ v, expected = some v := hcall.2.2.imp fun _ hv => hv.1
  have hstays : ∀ e, Relational.update entity id (some v) row s = (.error e, s) →
      Accounted l ((mark? (.update entity id (some v) row) s).toList ++ marks)
        (after (.update entity id (some v) row) s) := by
    intro e hfails
    refine h.quiet ?_ ?_
    · rw [written?, hfails]
      rfl
    · rw [after, hfails]
  cases hupdate : s.session.update entity id (some v) (assigned row) with
  | error fault => exact hstays _ (update_of_refused (Bool.and_false _) hupdate)
  | ok result =>
      obtain ⟨t, ht, hcounts⟩ := h.current
      rcases update_guarded hl ht hcounts.allVersioned hcall hupdate with
        ⟨-, hconflict⟩ | ⟨hversion, hbelow, hanswer, hsaved, u, hu, hwrites⟩
      · exact hstays _ hconflict
      · have hwritten : written? (.update entity id (some v) row) s = some (.raised id) := by
          rw [written?, hanswer]
          rfl
        exact h.wrote hwritten (fun _ => rfl) hsaved
          ⟨u, hu, hcounts.raised hversion hbelow hwrites⟩

end

theorem Accounted.begin (h : Accounted l marks s) :
    Accounted l ((mark? .beginUnit s).toList ++ marks) (after .beginUnit s) := by
  rcases begin_cases s with hsame | ⟨hclosed, -, hsession⟩
  · exact h.quiet rfl (congrArg Relational.session hsame)
  · have hmark : mark? .beginUnit s = some .begun := by
      rw [mark?, hclosed, hsession]
      rfl
    rw [hmark]
    refine ⟨?_, ?_⟩ <;> rw [hsession]
    · exact h.current
    · rintro c ⟨⟩
      exact h.current

theorem Accounted.end (h : Accounted l marks s) (commit : Bool) :
    Accounted l ((mark? (.endUnit commit) s).toList ++ marks) (after (.endUnit commit) s) := by
  obtain ⟨-, hsame | ⟨contents, hopen, hsession⟩⟩ := end_cases commit s
  · exact h.quiet rfl hsame
  · cases commit with
    | false => exact h.undone rfl (by decide) hopen hsession
    | true =>
        rw [mark?_ended rfl hopen (congrArg Session.saved hsession), if_pos rfl]
        refine ⟨?_, ?_⟩ <;> rw [hsession]
        · exact h.current
        · exact nofun

theorem Accounted.step (hl : l.Versioned) (h : Accounted l marks s) (hcall : c.Guards l s) :
    Accounted l ((mark? c s).toList ++ marks) (after c s) := by
  cases c with
  | find entity id => exact h.quiet rfl (session_find entity id s)
  | insert entity row => exact h.insert hl hcall
  | update entity id expected row => exact h.update hl hcall
  | evictAll => exact h.quiet rfl rfl
  | evictEntity entity => exact h.quiet rfl rfl
  | evict entity id => exact h.quiet rfl rfl
  | beginUnit => exact h.begin
  | endUnit commit => exact h.end commit

theorem Accounted.run (hl : l.Versioned) (calls : List Call) (h : Accounted l marks s)
    (hcalls : Guarded l calls s) :
    Accounted l (history calls s ++ marks) (afterAll calls s) := by
  induction calls generalizing s marks with
  | nil => exact h
  | cons c rest ih =>
      rw [history, List.append_assoc]
      exact ih (h.step hl hcalls.1) hcalls.2

/-- A guarded update that the database carries out is accepted just if the row has the version that
it expects, and then leaves and answers the next one; else it reports the version that is there, if
the row is, and changes nothing. It does not change anything either if the database refuses it. -/
structure Checks (l : Layout) (entity : String) (id v : Int64) (row : Row) (s : Relational) :
    Prop where
  accepted : (s.session.update entity id (some v) (assigned row)).isOk = true →
    ((update entity id (some v) row s).1.isOk = true ↔
      s.session.contents.version? l.name id = some v)
  raised : ∀ answer, (update entity id (some v) row s).1 = .ok answer →
    answer.get? Row.versionColumn = some (.int (v + 1)) ∧
      (update entity id (some v) row s).2.session.contents.version? l.name id = some (v + 1)
  conflict : (s.session.update entity id (some v) (assigned row)).isOk = true →
    s.session.contents.version? l.name id ≠ some v → update entity id (some v) row s =
      (.error (.versionConflict entity id v (s.session.contents.version? l.name id)), s)
  refused : ∀ fault, s.session.update entity id (some v) (assigned row) = .error fault →
    update entity id (some v) row s = (.error (.sql (.update entity id fault)), s)

theorem checks_of_has (hl : l.Versioned) (h : s.session.contents.Has l t) (ht : t.AllVersioned)
    {entity : String} {row : Row} (hcall : (Call.update entity id (some v) row).Guards l s) :
    Checks l entity id v row s := by
  cases hupdate : s.session.update entity id (some v) (assigned row) with
  | error fault =>
      have hrefused := update_of_refused (Bool.and_false _) hupdate
      have hnot : ¬(s.session.update entity id (some v) (assigned row)).isOk = true := by
        rw [hupdate]
        exact Bool.false_ne_true
      refine ⟨fun hok => absurd hok hnot, ?_, fun hok => absurd hok hnot,
        fun _ => update_of_refused (Bool.and_false _)⟩
      intro answer hanswer
      rw [hrefused] at hanswer
      cases hanswer
  | ok result =>
      have hnot : ∀ fault, s.session.update entity id (some v) (assigned row) ≠ .error fault := by
        intro fault hfault
        rw [hupdate] at hfault
        cases hfault
      rcases update_guarded hl h ht hcall hupdate with
        ⟨hversion, hconflict⟩ | ⟨hversion, -, hanswer, -, u, hu, hwrites⟩
      · rw [← h.version?] at hversion hconflict
        refine ⟨fun _ => iff_of_false ?_ hversion, ?_, fun _ _ => hconflict,
          fun fault hfault => absurd hfault (hnot fault)⟩
        · rw [hconflict]
          exact Bool.false_ne_true
        · intro answer hanswer
          rw [hconflict] at hanswer
          cases hanswer
      · rw [← h.version?] at hversion
        refine ⟨fun _ => iff_of_true ?_ hversion, ?_, fun _ hne => absurd hversion hne,
          fun fault hfault => absurd hfault (hnot fault)⟩
        · rw [hanswer]
          rfl
        · intro answer heq
          obtain rfl := Except.ok.inj (hanswer.symm.trans heq)
          refine ⟨?_, (hu.version? id).trans hwrites.here⟩
          rw [raisedRow, Keyed.get?_put, if_pos rfl]

theorem versions_counted (hl : l.Versioned) {c : Contents} (hempty : c.Has l ⟨l, .empty⟩)
    (calls : List Call) (hcalls : Guarded l calls (opened c)) :
    (∀ id, ((afterAll calls (opened c)).session.contents.version? l.name id).map Int64.toInt =
          (tally id (kept false (history calls (opened c)))).map Int.ofNat ∧
        ((afterAll calls (opened c)).session.contents.record? l.name id).isSome =
          (tally id (kept false (history calls (opened c)))).isSome) ∧
      ∀ (cache : Cache) (entity : String) (id v : Int64) (row : Row),
        (Call.update entity id (some v) row).Guards l (afterAll calls (opened c)) →
          Checks l entity id v row (Store.withCache (afterAll calls (opened c)) cache) := by
  have hstart : Accounted l [] (opened c) := ⟨⟨_, hempty, counts_empty⟩, nofun⟩
  have hafter := hstart.run hl calls hcalls
  rw [List.append_nil] at hafter
  obtain ⟨t, ht, hcounts⟩ := hafter.current
  refine ⟨fun id => ⟨?_, ?_⟩, fun cache entity id v row hcall => ?_⟩
  · rw [ht.version?]
    exact hcounts.versions id
  · rw [ht.record?]
    exact hcounts.isSome id
  · exact checks_of_has (s := Store.withCache (afterAll calls (opened c)) cache) hl ht
      hcounts.allVersioned hcall

theorem versioned_notes : notes.Versioned where
  key := rfl
  distinct := by decide
  apart := by decide
  version := ⟨{ name := "version", affinity := .integer, initial := .int 0 }, by decide,
    rfl, by decide⟩
  countersApart := by decide

theorem has_noNotes : noNotes.Has notes ⟨notes, .empty⟩ where
  table := rfl
  layout := rfl
  own := by
    intro k hk
    have hcounters : noNotes.tables.get? counters.name = some ⟨counters, .empty⟩ := rfl
    rw [hcounters] at hk
    exact Option.some.inj hk ▸ rfl

theorem mem_names_titled {title name : String} {v : Value} (h : (titled title).get? name = some v) :
    name ∈ notes.names := by
  have hname : name = "version" ∨ name = "title" := by
    by_contra hne
    obtain ⟨hversion, htitle⟩ := not_or.mp hne
    simp [titled, Keyed.ofList, hversion, htitle] at h
  rcases hname with rfl | rfl <;> decide

theorem spells_titled (title : String) : notes.Spells (titled title) :=
  versioned_notes.toRegular.spells fun _ _ => mem_names_titled

def keptChanges : List Call := [
  .insert "note" (titled "first"), .beginUnit, .update "note" 1 (some 0) (titled "second"),
  .endUnit false, .find "note" 1, .update "note" 1 (some 0) (titled "third"), .beginUnit,
  .insert "note" (titled "other"), .update "note" 2 (some 0) (titled "another"),
  .update "note" 2 (some 0) (titled "late"), .endUnit true]

theorem guards_insert (title : String) (s : Relational) :
    (Call.insert "note" (titled title)).Guards notes s :=
  ⟨rfl, spells_titled title, by simp [titled, Keyed.contains, Keyed.ofList, Row.versionColumn]⟩

theorem guards_update (title : String) (id : Int64) (s : Relational) :
    (Call.update "note" id (some 0) (titled title)).Guards notes s :=
  ⟨rfl, spells_titled title, 0, rfl, fun hmax => absurd hmax (by decide)⟩

theorem guarded_keptChanges : Guarded notes keptChanges (opened noNotes) :=
  ⟨guards_insert _ _, trivial, guards_update _ _ _, trivial, trivial, guards_update _ _ _, trivial,
    guards_insert _ _, guards_update _ _ _, guards_update _ _ _, trivial, trivial⟩

theorem versions_counted_of_keptChanges :
    let s := afterAll keptChanges (opened noNotes)
    let stale := Store.withCache s (s.cache.put "note" 1 (titled "first"))
    notes.Versioned ∧ noNotes.Has notes ⟨notes, .empty⟩ ∧
      Guarded notes keptChanges (opened noNotes) ∧
      history keptChanges (opened noNotes) = [.committed, .raised 2, .inserted 2, .begun, .raised 1,
        .undone, .raised 1, .begun, .inserted 1] ∧
      (s.session.contents.version? "note" 1).map Int64.toInt = some 1 ∧
      (s.session.contents.version? "note" 3).map Int64.toInt = none ∧
      update "note" 1 (some 0) (titled "late") stale =
        (.error (.versionConflict "note" 1 0 (some 1)), stale) ∧
      (update "note" 1 (some 1) (titled "last") stale).1.isOk = true := by
  intro s stale
  obtain ⟨hversions, hchecks⟩ :=
    versions_counted versioned_notes has_noNotes keptChanges guarded_keptChanges
  have hmarks : history keptChanges (opened noNotes) = [.committed, .raised 2, .inserted 2, .begun,
      .raised 1, .undone, .raised 1, .begun, .inserted 1] := by decide +kernel
  rw [hmarks] at hversions
  obtain ⟨n, hn, htoInt⟩ := Option.map_eq_some_iff.mp (hversions 1).1
  obtain rfl : n = 1 := Int64.toInt_inj.mp htoInt
  have hversion : stale.session.contents.version? notes.name 1 = some 1 :=
    (congrArg (·.contents.version? notes.name 1) (session_withCache s _)).trans hn
  have hlate : Checks notes "note" 1 0 (titled "late") stale :=
    hchecks _ _ _ _ _ (guards_update _ _ _)
  have hlast : Checks notes "note" 1 1 (titled "last") stale :=
    hchecks _ _ _ _ _ ⟨rfl, spells_titled _, 1, rfl, fun hmax => absurd hmax (by decide)⟩
  refine ⟨versioned_notes, has_noNotes, guarded_keptChanges, hmarks, (hversions 1).1,
    (hversions 3).1, ?_, ?_⟩
  · have hconflict := hlate.conflict (by decide +kernel) (by rw [hversion]; decide)
    rwa [hversion] at hconflict
  · exact (hlast.accepted (by decide +kernel)).mpr hversion

end RecordQuery.Relational
