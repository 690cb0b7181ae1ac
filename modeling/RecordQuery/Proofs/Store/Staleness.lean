import Mathlib.Data.List.Induction
import RecordQuery.Proofs.Store.Run

namespace RecordQuery.Memory

/-- What a request does to the cache entry of one key: the entry is put, and with it `row`, which
the table holds from then on; the entry is dropped; or the row is written past it. -/
inductive Event where
  | put (row : Row)
  | dropped
  | overwritten
  deriving DecidableEq

variable (entity : String) (id : Int64)

def puts : Call → Memory → Bool
  | .find e i, s => e = entity ∧ i = id ∧ s.cache.row? e i = none
  | .insert e row, s => e = entity ∧ s.lastId + 1 = id ∧ (insert e row s).1.isOk
  | .update e i expected row, s => e = entity ∧ i = id ∧ (update e i expected row s).1.isOk
  | _, _ => false

def drops : Call → Bool
  | .evict e i => e = entity ∧ i = id
  | .evictEntity e => e = entity
  | .evictAll => true
  | _ => false

def overwrites : Call → Bool
  | .writeExternally e row => e = entity ∧ Row.int row Row.idColumn = .ok id
  | _ => false

def eventOf (c : Call) (s : Memory) : Option Event :=
  if puts entity id c s then ((after c s).tables.row? entity id).map .put
  else if drops entity id c then some .dropped
  else if overwrites entity id c then some .overwritten
  else none

def eventsOf : List Call → Memory → List Event
  | [], _ => []
  | c :: rest, s => (eventOf entity id c s).toList ++ eventsOf rest (after c s)

/-- The entry was last put with `row`, was not dropped since and was written past since. -/
def Stale (row : Row) (events : List Event) : Prop :=
  ∃ before since, events = before ++ .put row :: since ∧ since ≠ [] ∧
    ∀ x ∈ since, x = .overwritten

def noted : List Event → Option (Row × Bool) → Option (Row × Bool)
  | [], entry => entry
  | .put row :: rest, _ => noted rest (some (row, false))
  | .dropped :: rest, _ => noted rest none
  | .overwritten :: rest, entry => noted rest (entry.map fun x => (x.1, true))

theorem noted_append (l r : List Event) (entry : Option (Row × Bool)) :
    noted (l ++ r) entry = noted r (noted l entry) := by
  induction l generalizing entry with
  | nil => rfl
  | cons x rest ih =>
      cases x with
      | put row => exact ih _
      | dropped => exact ih _
      | overwritten => exact ih _

theorem noted_overwritten {since : List Event} (h : ∀ x ∈ since, x = .overwritten) (row : Row)
    (stale : Bool) :
    noted since (some (row, stale)) = some (row, stale || !since.isEmpty) := by
  induction since generalizing stale with
  | nil => simp [noted]
  | cons x rest ih =>
      obtain ⟨rfl, hrest⟩ := List.forall_mem_cons.mp h
      rw [noted, Option.map_some, ih hrest]
      simp

theorem exists_put_of_noted {events : List Event} {row : Row} {stale : Bool}
    (h : noted events none = some (row, stale)) :
    ∃ before since, events = before ++ .put row :: since ∧ stale = !since.isEmpty ∧
      ∀ x ∈ since, x = .overwritten := by
  induction events using List.reverseRecOn generalizing stale with
  | nil => cases h
  | append_singleton l x ih =>
      rw [noted_append] at h
      cases x with
      | put r =>
          obtain ⟨rfl, rfl⟩ := Prod.mk.inj (Option.some.inj h)
          exact ⟨l, [], rfl, rfl, by simp⟩
      | dropped => cases h
      | overwritten =>
          rw [noted, noted, Option.map_eq_some_iff] at h
          obtain ⟨⟨r, earlier⟩, hl, hentry⟩ := h
          obtain ⟨rfl, rfl⟩ := Prod.mk.inj hentry
          obtain ⟨before, since, rfl, -, hsince⟩ := ih hl
          refine ⟨before, since ++ [.overwritten], by simp, by simp, ?_⟩
          intro y hy
          rcases List.mem_append.mp hy with hy | hy
          · exact hsince y hy
          · exact List.mem_singleton.mp hy

theorem stale_iff_noted {row : Row} {events : List Event} :
    Stale row events ↔ noted events none = some (row, true) := by
  constructor
  · rintro ⟨before, since, rfl, hne, hsince⟩
    rw [noted_append, noted, noted_overwritten hsince]
    simp [hne]
  · intro h
    obtain ⟨before, since, hevents, hne, hsince⟩ := exists_put_of_noted h
    exact ⟨before, since, hevents, by simpa using hne.symm, hsince⟩

structure Tracked (entry : Option (Row × Bool)) (s : Memory) : Prop where
  cached : s.cache.row? entity id = entry.map (·.1)
  current : ∀ row, entry = some (row, false) → s.tables.row? entity id = some row
  stored : entry.isSome → (s.tables.row? entity id).isSome

variable {entity : String} {id : Int64}

theorem tracked_none {s : Memory} (h : s.cache.row? entity id = none) :
    Tracked entity id none s := by
  refine ⟨h, ?_, ?_⟩
  · rintro row ⟨⟩
  · rintro ⟨⟩

theorem tracked_put {row : Row} {s : Memory} (hcache : s.cache.row? entity id = some row)
    (htables : s.tables.row? entity id = some row) : Tracked entity id (some (row, false)) s := by
  refine ⟨hcache, ?_, ?_⟩
  · rintro r ⟨⟩
    exact htables
  · rintro -
    rw [htables]
    rfl

variable {entry : Option (Row × Bool)} {s t : Memory}

theorem Tracked.of_row? (h : Tracked entity id entry s)
    (hcache : t.cache.row? entity id = s.cache.row? entity id)
    (htables : t.tables.row? entity id = s.tables.row? entity id) : Tracked entity id entry t := by
  refine ⟨hcache.trans h.cached, ?_, ?_⟩
  · rw [htables]
    exact h.current
  · rw [htables]
    exact h.stored

theorem Tracked.of_overwritten (h : Tracked entity id entry s)
    (hcache : t.cache.row? entity id = s.cache.row? entity id)
    (htables : (t.tables.row? entity id).isSome) :
    Tracked entity id (entry.map fun x => (x.1, true)) t := by
  refine ⟨?_, ?_, fun _ => htables⟩
  · rw [hcache, h.cached, Option.map_map]
    rfl
  · intro row hrow
    obtain ⟨x, -, hx⟩ := Option.map_eq_some_iff.mp hrow
    cases (Prod.mk.inj hx).2

theorem eventOf_of_puts {c : Call} (h : puts entity id c s = true) :
    eventOf entity id c s = ((after c s).tables.row? entity id).map .put := by
  rw [eventOf, if_pos h]

theorem eventOf_eq_none {c : Call} (hputs : puts entity id c s = false)
    (hdrops : drops entity id c = false) (hoverwrites : overwrites entity id c = false) :
    eventOf entity id c s = none := by
  simp [eventOf, hputs, hdrops, hoverwrites]

theorem Tracked.of_write (h : Tracked entity id entry s) {c : Call} {e : String} {i : Int64}
    {written : Row} (hputs : puts entity id c s = decide (entity = e ∧ id = i))
    (hdrops : drops entity id c = false) (hoverwrites : overwrites entity id c = false)
    (htables : (after c s).tables = (write e i written s).tables)
    (hcache : (after c s).cache = (write e i written s).cache) :
    Tracked entity id (noted (eventOf entity id c s).toList entry) (after c s) := by
  have hrow : (after c s).tables.row? entity id =
      if entity = e ∧ id = i then some written else s.tables.row? entity id := by
    rw [htables, row?_write]
  have hcached : (after c s).cache.row? entity id =
      if entity = e ∧ id = i then some written else s.cache.row? entity id := by
    rw [hcache]
    exact Cache.row?_put ..
  by_cases hkey : entity = e ∧ id = i
  · rw [if_pos hkey] at hrow hcached
    rw [eventOf_of_puts (hputs.trans (decide_eq_true hkey)), hrow]
    exact tracked_put hcached hrow
  · rw [if_neg hkey] at hrow hcached
    rw [eventOf_eq_none (hputs.trans (decide_eq_false hkey)) hdrops hoverwrites]
    exact h.of_row? hcached hrow

theorem Tracked.find (h : Tracked entity id entry s) (e : String) (i : Int64) :
    Tracked entity id (noted (eventOf entity id (.find e i) s).toList entry)
      (after (.find e i) s) := by
  have htables : (after (.find e i) s).tables = s.tables := tables_find e i s
  have hcache : (after (.find e i) s).cache.row? entity id = _ := row?_cache_find e entity i id s
  by_cases hkey : entity = e ∧ id = i
  · obtain ⟨rfl, rfl⟩ := hkey
    rw [if_pos ⟨rfl, rfl⟩] at hcache
    cases hcached : s.cache.row? entity id with
    | some row =>
        rw [hcached, Option.some_or] at hcache
        rw [eventOf_eq_none (by simp [puts, hcached]) rfl rfl]
        exact h.of_row? (hcache.trans hcached.symm) (by rw [htables])
    | none =>
        rw [hcached, Option.none_or] at hcache
        rw [eventOf_of_puts (by simp [puts, hcached]), htables]
        cases hrow : s.tables.row? entity id with
        | some row => exact tracked_put (hcache.trans hrow) (by rw [htables, hrow])
        | none => exact h.of_row? (hcache.trans (hrow.trans hcached.symm)) (by rw [htables])
  · rw [if_neg hkey] at hcache
    have hputs : puts entity id (.find e i) s = false := by
      refine decide_eq_false ?_
      rintro ⟨rfl, rfl, -⟩
      exact hkey ⟨rfl, rfl⟩
    rw [eventOf_eq_none hputs rfl rfl]
    exact h.of_row? hcache (by rw [htables])

theorem Tracked.of_evicted (h : Tracked entity id entry s) {c : Call}
    (hputs : puts entity id c s = false) (hoverwrites : overwrites entity id c = false)
    (htables : (after c s).tables = s.tables)
    (hcache : (after c s).cache.row? entity id =
      if drops entity id c then none else s.cache.row? entity id) :
    Tracked entity id (noted (eventOf entity id c s).toList entry) (after c s) := by
  by_cases hdrops : drops entity id c = true
  · rw [if_pos hdrops] at hcache
    rw [eventOf, if_neg (by simp [hputs]), if_pos hdrops]
    exact tracked_none hcache
  · rw [if_neg hdrops] at hcache
    rw [eventOf_eq_none hputs (by simpa using hdrops) hoverwrites]
    exact h.of_row? hcache (by rw [htables])

theorem Tracked.writeExternally (h : Tracked entity id entry s) (e : String) (row : Row) :
    Tracked entity id (noted (eventOf entity id (.writeExternally e row) s).toList entry)
      (after (.writeExternally e row) s) := by
  cases hid : Row.int row Row.idColumn with
  | error fault =>
      have hafter : after (.writeExternally e row) s = s := by
        rw [after, Memory.writeExternally, hid]
      rw [hafter, eventOf_eq_none rfl rfl (by simp [overwrites, hid])]
      exact h
  | ok i =>
      have hafter : after (.writeExternally e row) s =
          { s with tables := s.tables.put e i row, lastId := max s.lastId i } := by
        rw [after, Memory.writeExternally, hid]
      have hrow : (after (.writeExternally e row) s).tables.row? entity id =
          if entity = e ∧ id = i then some row else s.tables.row? entity id := by
        rw [hafter]
        exact RowFile.row?_put ..
      by_cases hkey : entity = e ∧ id = i
      · rw [if_pos hkey] at hrow
        have hover : overwrites entity id (.writeExternally e row) = true := by
          simp [overwrites, hid, hkey]
        rw [eventOf, if_neg (by simp [puts]), if_neg (by simp [drops]), if_pos hover]
        exact h.of_overwritten (by rw [hafter]) (by rw [hrow]; rfl)
      · rw [if_neg hkey] at hrow
        have hover : overwrites entity id (.writeExternally e row) = false := by
          refine decide_eq_false ?_
          rintro ⟨rfl, hread⟩
          rw [hid] at hread
          exact hkey ⟨rfl, (Except.ok.inj hread).symm⟩
        rw [eventOf_eq_none rfl rfl hover]
        exact h.of_row? (by rw [hafter]) hrow

theorem Tracked.step (h : Tracked entity id entry s) (c : Call) :
    Tracked entity id (noted (eventOf entity id c s).toList entry) (after c s) := by
  cases c with
  | find e i => exact h.find e i
  | insert e row =>
      rcases insert_cases e row s with ⟨-, hinsert⟩ | ⟨-, hinsert⟩
      · have hafter := congrArg Prod.snd hinsert
        have htables := congrArg Memory.tables hafter
        have hcache := congrArg Memory.cache hafter
        refine h.of_write (e := e) (i := s.lastId + 1) ?_ rfl rfl htables hcache
        simp [puts, hinsert, Except.isOk, Except.toBool, eq_comm]
      · rw [eventOf_eq_none (by simp [puts, hinsert, Except.isOk, Except.toBool]) rfl rfl, after,
          hinsert]
        exact h
  | update e i expected row =>
      rcases update_cases e i expected row s with ⟨written, hu, -⟩ | ⟨fault, hu⟩
      · have hafter : after (.update e i expected row) s = (replace e i written s).2 := by
          rw [after, hu]
        have htables := congrArg Memory.tables hafter
        have hcache := congrArg Memory.cache hafter
        refine h.of_write (e := e) (i := i) ?_ rfl rfl htables hcache
        simp [puts, hu, replace, Except.isOk, Except.toBool, eq_comm]
      · rw [eventOf_eq_none (by simp [puts, hu, Except.isOk, Except.toBool]) rfl rfl, after, hu]
        exact h
  | evictAll => exact h.of_evicted rfl rfl rfl rfl
  | evictEntity e =>
      refine h.of_evicted rfl rfl rfl ?_
      simp only [drops, decide_eq_true_eq]
      exact (Cache.row?_evictEntity ..).trans (if_congr eq_comm rfl rfl)
  | evict e i =>
      refine h.of_evicted rfl rfl rfl ?_
      simp only [drops, decide_eq_true_eq]
      exact (Cache.row?_evict ..).trans (if_congr (and_congr eq_comm eq_comm) rfl rfl)
  | writeExternally e row => exact h.writeExternally e row
  | next name =>
      rcases next_cases name s with ⟨-, hnext⟩ | ⟨-, hnext⟩
      · rw [after, hnext]
        exact h.of_row? rfl rfl
      · rw [after, hnext]
        exact h
  | _ => exact h.of_row? rfl rfl

theorem Tracked.run (calls : List Call) (h : Tracked entity id entry s) :
    Tracked entity id (noted (eventsOf entity id calls s) entry) (afterAll calls s) := by
  induction calls generalizing entry s with
  | nil => exact h
  | cons c rest ih =>
      rw [eventsOf, noted_append]
      exact ih (h.step c)

theorem exists_moment_of_put {calls : List Call} {row : Row}
    (h : .put row ∈ eventsOf entity id calls s) :
    ∃ before rest, calls = before ++ rest ∧
      (afterAll before s).tables.row? entity id = some row := by
  induction calls generalizing s with
  | nil => cases h
  | cons c rest ih =>
      rcases List.mem_append.mp h with h | h
      · refine ⟨[c], rest, rfl, ?_⟩
        rw [Option.mem_toList, eventOf] at h
        split at h
        · obtain ⟨r, hr, hput⟩ := Option.map_eq_some_iff.mp h
          rw [← Event.put.inj hput]
          exact hr
        · split at h
          · cases Option.some.inj h
          · split at h
            · cases Option.some.inj h
            · cases h
      · obtain ⟨before, others, rfl, hrow⟩ := ih h
        exact ⟨c :: before, others, rfl, hrow⟩

def Call.entity? : Call → Option String
  | .rows q => some q.entity
  | .column q _ => some q.entity
  | .count q => some q.entity
  | .find e _ => some e
  | .insert e _ => some e
  | .update e _ _ _ => some e
  | .evictEntity e => some e
  | .evict e _ => some e
  | .writeExternally e _ => some e
  | _ => none

theorem eventOf_other {c : Call} {e : String} (hc : c.entity? = some e) (he : e ≠ entity)
    (s : Memory) : eventOf entity id c s = none := by
  cases c <;> simp_all [Call.entity?, eventOf, puts, drops, overwrites]

theorem row?_after_other {c : Call} {e : String} (hc : c.entity? = some e) (he : e ≠ entity)
    (s : Memory) : (after c s).tables.row? entity id = s.tables.row? entity id := by
  by_cases hsilent : c.isSilent = true
  · rw [(tables_after_silent hsilent s).1]
  cases c with
  | insert e' row =>
      obtain rfl := Option.some.inj hc
      rcases insert_cases e' row s with ⟨-, hinsert⟩ | ⟨-, hinsert⟩
      · simp [after, hinsert, he.symm]
      · rw [after, hinsert]
  | update e' i expected row =>
      obtain rfl := Option.some.inj hc
      rcases update_cases e' i expected row s with ⟨written, hu, -⟩ | ⟨fault, hu⟩
      · simp [after, hu, replace, he.symm]
      · rw [after, hu]
  | writeExternally e' row =>
      obtain rfl := Option.some.inj hc
      cases hid : Row.int row Row.idColumn with
      | error fault => simp [after, writeExternally, hid]
      | ok i => simp [after, writeExternally, hid, he.symm]
  | _ => exact absurd rfl hsilent

theorem Tracked.find_after_other (h : Tracked entity id entry s) {c : Call} {e : String}
    (hc : c.entity? = some e) (he : e ≠ entity) :
    (Memory.find entity id (after c s)).1 = (Memory.find entity id s).1 := by
  have hnext := h.step c
  rw [eventOf_other hc he] at hnext
  rw [find_fst, find_fst, hnext.cached, h.cached, row?_after_other hc he]
  rfl

theorem Tracked.find_stale (h : Tracked entity id entry s) {row : Row}
    (hentry : entry = some (row, true)) : (Memory.find entity id s).1 = .ok (some row) := by
  rw [find_fst, h.cached, hentry]
  rfl

theorem Tracked.find_current (h : Tracked entity id entry s)
    (hentry : ∀ row, entry ≠ some (row, true)) :
    (Memory.find entity id s).1 = .ok (s.tables.row? entity id) := by
  rw [find_fst, h.cached]
  cases hcase : entry with
  | none => rfl
  | some x =>
      obtain ⟨row, stale⟩ := x
      cases stale with
      | true => exact absurd hcase (hentry row)
      | false => exact congrArg Except.ok (h.current row hcase).symm

theorem Tracked.exists_moment {calls : List Call} {row : Row}
    (h : Tracked entity id (noted (eventsOf entity id calls {}) none) (afterAll calls {}))
    (hfind : (Memory.find entity id (afterAll calls {})).1 = .ok (some row)) :
    ∃ before rest, calls = before ++ rest ∧
      (afterAll before {}).tables.row? entity id = some row := by
  rw [find_fst, h.cached] at hfind
  cases hentry : noted (eventsOf entity id calls {}) none with
  | none =>
      rw [hentry] at hfind
      exact ⟨calls, [], (List.append_nil calls).symm, Except.ok.inj hfind⟩
  | some x =>
      obtain ⟨r, stale⟩ := x
      rw [hentry] at hfind
      obtain rfl := Option.some.inj (Except.ok.inj hfind)
      obtain ⟨before, since, hevents, -⟩ := exists_put_of_noted hentry
      exact exists_moment_of_put (by rw [hevents]; simp)

theorem find_exact (calls : List Call) (entity : String) (id : Int64) :
    let s := afterAll calls {}
    let events := eventsOf entity id calls {}
    (∀ row, Stale row events → (find entity id s).1 = .ok (some row)) ∧
      ((¬∃ row, Stale row events) → (find entity id s).1 = .ok (s.tables.row? entity id)) ∧
      (s.cache.contains entity id = true → (s.tables.row? entity id).isSome = true) ∧
      (∀ row, (find entity id s).1 = .ok (some row) → ∃ before rest, calls = before ++ rest ∧
        (afterAll before {}).tables.row? entity id = some row) ∧
      (∀ c e, c.entity? = some e → e ≠ entity →
        (find entity id (after c s)).1 = (find entity id s).1) ∧
      (∀ expected row fault, (update entity id expected row s).1 = .error fault →
        (update entity id expected row s).2 = s) := by
  intro s events
  have htracked : Tracked entity id (noted events none) s := (tracked_none rfl).run calls
  refine ⟨?_, ?_, ?_, ?_, ?_, ?_⟩
  · intro row hstale
    exact htracked.find_stale (stale_iff_noted.mp hstale)
  · intro hfresh
    refine htracked.find_current ?_
    intro row hentry
    exact hfresh ⟨row, stale_iff_noted.mpr hentry⟩
  · intro hcontains
    refine htracked.stored ?_
    rw [Cache.contains, htracked.cached, Option.isSome_map] at hcontains
    exact hcontains
  · intro row hfind
    exact htracked.exists_moment hfind
  · intro c e hc he
    exact htracked.find_after_other hc he
  · intro expected row fault hfail
    rcases update_cases entity id expected row s with ⟨written, hu, -⟩ | ⟨_, hu⟩
    · rw [hu] at hfail
      cases hfail
    · rw [hu]

def cover : Row := .ofList [("id", .int 1), ("title", .text "cover")]

def retitled : Row := .ofList [("id", .int 1), ("title", .text "retitled")]

def retitling : List Call := [
  .insert "page" cover, .insert "tag" .empty, .writeExternally "page" retitled, .find "page" 1,
  .evictEntity "tag"]

theorem find_exact_of_retitled :
    Stale cover (eventsOf "page" 1 retitling {}) ∧
      (¬∃ row, Stale row (eventsOf "page" 1 (retitling ++ [.evict "page" 1]) {})) ∧
      (find "page" 1 (afterAll retitling {})).1 = .ok (some cover) ∧
      (find "page" 1 (afterAll (retitling ++ [.evict "page" 1]) {})).1 = .ok (some retitled) := by
  have hstale : Stale cover (eventsOf "page" 1 retitling {}) :=
    stale_iff_noted.mpr (by decide +kernel)
  have hfresh : ¬∃ row, Stale row (eventsOf "page" 1 (retitling ++ [.evict "page" 1]) {}) := by
    rintro ⟨row, hrow⟩
    have hnoted : noted (eventsOf "page" 1 (retitling ++ [.evict "page" 1]) {}) none = none := by
      decide +kernel
    rw [stale_iff_noted, hnoted] at hrow
    cases hrow
  have hevicted := (find_exact (retitling ++ [.evict "page" 1]) "page" 1).2.1 hfresh
  exact ⟨hstale, hfresh, (find_exact retitling "page" 1).1 cover hstale,
    hevicted.trans (by decide +kernel)⟩

end RecordQuery.Memory
