import RecordQuery.Proofs.Data.Integer
import RecordQuery.Store.Memory

namespace RecordQuery.Memory

inductive Call where
  | rows (q : Query)
  | column (q : Query) (name : String)
  | count (q : Query)
  | find (entity : String) (id : Int64)
  | insert (entity : String) (row : Row)
  | update (entity : String) (id : Int64) (expected : Option Int64) (row : Row)
  | flush
  | evictAll
  | evictEntity (entity : String)
  | evict (entity : String) (id : Int64)
  | next (name : String)
  | beginUnit
  | endUnit
  | writeExternally (entity : String) (row : Row)

def after : Call → Memory → Memory
  | .rows _, s => s
  | .column .., s => s
  | .count _, s => s
  | .find entity id, s => (find entity id s).2
  | .insert entity row, s => (insert entity row s).2
  | .update entity id expected row, s => (update entity id expected row s).2
  | .flush, s => Store.flush s
  | .evictAll, s => Store.evictAll s
  | .evictEntity entity, s => Store.evictEntity entity s
  | .evict entity id, s => Store.evict entity id s
  | .next name, s => (next name s).2
  | .beginUnit, s => (beginUnit s).2
  | .endUnit, s => endUnit s
  | .writeExternally entity row, s => (writeExternally entity row s).2

def afterAll : List Call → Memory → Memory
  | [], s => s
  | c :: rest, s => afterAll rest (after c s)

theorem afterAll_append (l r : List Call) (s : Memory) :
    afterAll (l ++ r) s = afterAll r (afterAll l s) := by
  induction l generalizing s with
  | nil => rfl
  | cons c l ih => exact ih (after c s)

def Call.isSilent : Call → Bool
  | .insert .. => false
  | .update .. => false
  | .writeExternally .. => false
  | _ => true

@[simp] theorem tables_find (entity : String) (id : Int64) (s : Memory) :
    (find entity id s).2.tables = s.tables := by
  unfold find
  split
  · rfl
  · split <;> rfl

@[simp] theorem lastId_find (entity : String) (id : Int64) (s : Memory) :
    (find entity id s).2.lastId = s.lastId := by
  unfold find
  split
  · rfl
  · split <;> rfl

theorem find_fst (entity : String) (id : Int64) (s : Memory) :
    (find entity id s).1 = .ok ((s.cache.row? entity id).or (s.tables.row? entity id)) := by
  have hget : (s.cache.get entity id).1 = s.cache.row? entity id := Cache.get_fst ..
  unfold find
  split
  · rename_i row cache hcache
    rw [hcache] at hget
    rw [← hget, Option.some_or]
  · rename_i cache hcache
    rw [hcache] at hget
    rw [← hget, Option.none_or]
    cases s.tables.row? entity id <;> rfl

theorem row?_cache_find (entity e : String) (id i : Int64) (s : Memory) :
    (find entity id s).2.cache.row? e i =
      if e = entity ∧ i = id then (s.cache.row? entity id).or (s.tables.row? entity id)
      else s.cache.row? e i := by
  have hget : (s.cache.get entity id).1 = s.cache.row? entity id := Cache.get_fst ..
  have hkeep : (s.cache.get entity id).2.row? e i = s.cache.row? e i := Cache.row?_get ..
  have hsame : s.cache.row? e i =
      if e = entity ∧ i = id then s.cache.row? entity id else s.cache.row? e i := by
    split
    · rename_i hkey
      rw [hkey.1, hkey.2]
    · rfl
  unfold find
  split
  · rename_i row cache hcache
    rw [hcache] at hget hkeep
    rw [← hget] at hsame ⊢
    exact hkeep.trans hsame
  · rename_i cache hcache
    rw [hcache] at hget hkeep
    rw [← hget, Option.none_or]
    cases htable : s.tables.row? entity id with
    | some row => simp only [Cache.row?_put, hkeep]
    | none =>
        rw [← hget] at hsame
        exact hkeep.trans hsame

def sequenceAt (name : String) (s : Memory) : Int64 := (s.sequences.get? name).getD 0

theorem next_cases (name : String) (s : Memory) :
    (sequenceAt name s < Int64.maxValue ∧ next name s =
        (.ok (sequenceAt name s + 1),
          { s with sequences := s.sequences.put name (sequenceAt name s + 1) })) ∨
      sequenceAt name s = Int64.maxValue ∧ next name s = (.error .overflow, s) := by
  unfold next
  rcases numberAfter_cases (sequenceAt name s) with ⟨hroom, hnext⟩ | ⟨hlast, hnext⟩
  · rw [sequenceAt] at hnext ⊢
    exact .inl ⟨hroom, by rw [hnext]⟩
  · rw [sequenceAt] at hnext ⊢
    exact .inr ⟨hlast, by rw [hnext]⟩

theorem tables_after_silent {c : Call} (hc : c.isSilent = true) (s : Memory) :
    (after c s).tables = s.tables ∧ (after c s).lastId = s.lastId := by
  cases c with
  | insert entity row => cases hc
  | update entity id expected row => cases hc
  | writeExternally entity row => cases hc
  | find entity id => exact ⟨tables_find entity id s, lastId_find entity id s⟩
  | next name =>
      rcases next_cases name s with ⟨-, hnext⟩ | ⟨-, hnext⟩
      · rw [after, hnext]
        exact ⟨rfl, rfl⟩
      · rw [after, hnext]
        exact ⟨rfl, rfl⟩
  | _ => exact ⟨rfl, rfl⟩

@[simp] theorem row?_write (entity e : String) (id i : Int64) (row : Row) (s : Memory) :
    (write entity id row s).tables.row? e i =
      if e = entity ∧ i = id then some row else s.tables.row? e i :=
  RowFile.row?_put ..

def numbered (id : Int64) (row : Row) : Row := row.put Row.idColumn (.int id)

def versioned (id version : Int64) (row : Row) : Row :=
  (numbered id row).put Row.versionColumn (.int version)

@[simp] theorem int?_versioned (id version : Int64) (row : Row) :
    Row.int? (versioned id version row) Row.versionColumn = .ok (some version) := by
  simp [Row.int?, Row.read?, Row.value, versioned, Value.asInt]

@[simp] theorem int_numbered_id (id : Int64) (row : Row) :
    Row.int (numbered id row) Row.idColumn = .ok id := by
  simp [Row.int, Row.read, Row.read?, Row.value, numbered, Value.asInt]

@[simp] theorem int_versioned_id (id version : Int64) (row : Row) :
    Row.int (versioned id version row) Row.idColumn = .ok id := by
  simp [Row.int, Row.read, Row.read?, Row.value, versioned, numbered, Row.idColumn,
    Row.versionColumn, Value.asInt]

theorem int_withVersionIfAny_id (id version : Int64) (row : Row) :
    Row.int (withVersionIfAny (numbered id row) version) Row.idColumn = .ok id := by
  rw [withVersionIfAny]
  split
  · exact int_versioned_id id version row
  · exact int_numbered_id id row

theorem withVersionIfAny_numbered {row : Row} (h : row.contains Row.versionColumn = true)
    (id version : Int64) :
    withVersionIfAny (numbered id row) version = versioned id version row := by
  have hcontains : (numbered id row).contains Row.versionColumn = true := by
    simpa [numbered, Keyed.contains, Row.versionColumn, Row.idColumn] using h
  rw [withVersionIfAny, if_pos hcontains, versioned]

theorem insert_of_room (entity : String) (row : Row) {s : Memory}
    (hroom : s.lastId < Int64.maxValue) :
    insert entity row s =
      (.ok (withVersionIfAny (numbered (s.lastId + 1) row) 0),
        { write entity (s.lastId + 1) (withVersionIfAny (numbered (s.lastId + 1) row) 0) s with
          lastId := s.lastId + 1 }) := by
  rw [insert, numberAfter_of_lt hroom]
  rfl

theorem insert_overflow (entity : String) (row : Row) {s : Memory}
    (hlast : s.lastId = Int64.maxValue) : insert entity row s = (.error .overflow, s) := by
  rw [insert, hlast, numberAfter_maxValue]

theorem insert_cases (entity : String) (row : Row) (s : Memory) :
    (s.lastId < Int64.maxValue ∧ insert entity row s =
        (.ok (withVersionIfAny (numbered (s.lastId + 1) row) 0),
          { write entity (s.lastId + 1) (withVersionIfAny (numbered (s.lastId + 1) row) 0) s with
            lastId := s.lastId + 1 })) ∨
      s.lastId = Int64.maxValue ∧ insert entity row s = (.error .overflow, s) := by
  rcases numberAfter_cases s.lastId with ⟨hroom, -⟩ | ⟨hlast, -⟩
  · exact .inl ⟨hroom, insert_of_room entity row hroom⟩
  · exact .inr ⟨hlast, insert_overflow entity row hlast⟩

theorem insert_versioned (entity : String) {row : Row}
    (h : row.contains Row.versionColumn = true) {s : Memory}
    (hroom : s.lastId < Int64.maxValue) :
    insert entity row s =
      (.ok (versioned (s.lastId + 1) 0 row),
        { write entity (s.lastId + 1) (versioned (s.lastId + 1) 0 row) s with
          lastId := s.lastId + 1 }) := by
  rw [insert_of_room entity row hroom, withVersionIfAny_numbered h]

def versionAt (entity : String) (id : Int64) (s : Memory) :
    Except Row.ReadError (Option Int64) :=
  match s.tables.row? entity id with
  | none => .ok none
  | some row => Row.int? row Row.versionColumn

theorem storedVersion_eq (entity : String) (id : Int64) (s : Memory) :
    storedVersion entity id s =
      (versionAt entity id s).mapError (StoreError.decode entity <| .read ·) := by
  unfold storedVersion versionAt
  cases s.tables.row? entity id with
  | none => rfl
  | some row => cases h : Row.int? row Row.versionColumn <;> simp [h, Except.mapError]

theorem update_current {entity : String} {id version : Int64} {s : Memory}
    (h : versionAt entity id s = .ok (some version)) (hroom : version < Int64.maxValue)
    (row : Row) :
    update entity id (some version) row s =
      replace entity id (versioned id (version + 1) row) s := by
  simp [update, storedVersion_eq, h, Except.mapError, numberAfter_of_lt hroom, versioned, numbered]

theorem update_overflow {entity : String} {id : Int64} {s : Memory}
    (h : versionAt entity id s = .ok (some Int64.maxValue)) (row : Row) :
    update entity id (some Int64.maxValue) row s = (.error .overflow, s) := by
  simp [update, storedVersion_eq, h, Except.mapError, numberAfter_maxValue]

theorem update_conflict {entity : String} {id version : Int64} {actual : Option Int64}
    {s : Memory} (h : versionAt entity id s = .ok actual) (hne : actual ≠ some version)
    (row : Row) :
    update entity id (some version) row s =
      (.error (.versionConflict entity id version actual), s) := by
  simp [update, storedVersion_eq, h, hne, Except.mapError]

theorem update_unreadable {entity : String} {id : Int64} {e : Row.ReadError} {s : Memory}
    (h : versionAt entity id s = .error e) (version : Int64) (row : Row) :
    update entity id (some version) row s = (.error (.decode entity (.read e)), s) := by
  simp [update, storedVersion_eq, h, Except.mapError]

theorem update_checked (entity : String) (id version : Int64) (row : Row) (s : Memory) :
    (versionAt entity id s = .ok (some version) ∧ version < Int64.maxValue ∧
      update entity id (some version) row s =
        replace entity id (versioned id (version + 1) row) s) ∨
      ∃ fault, update entity id (some version) row s = (.error fault, s) := by
  cases h : versionAt entity id s with
  | error e => exact .inr ⟨_, update_unreadable h version row⟩
  | ok actual =>
      by_cases hv : actual = some version
      · subst hv
        rcases numberAfter_cases version with ⟨hroom, -⟩ | ⟨rfl, -⟩
        · exact .inl ⟨rfl, hroom, update_current h hroom row⟩
        · exact .inr ⟨_, update_overflow h row⟩
      · exact .inr ⟨_, update_conflict h hv row⟩

theorem update_cases (entity : String) (id : Int64) (expected : Option Int64) (row : Row)
    (s : Memory) :
    (∃ written, update entity id expected row s = replace entity id written s ∧
      Row.int written Row.idColumn = .ok id) ∨
      ∃ fault, update entity id expected row s = (.error fault, s) := by
  cases expected with
  | none => exact .inl ⟨numbered id row, rfl, int_numbered_id id row⟩
  | some version =>
      rcases update_checked entity id version row s with ⟨-, -, hu⟩ | hu
      · exact .inl ⟨_, hu, int_versioned_id id (version + 1) row⟩
      · exact .inr hu

theorem exists_of_versionAt {entity : String} {id version : Int64} {s : Memory}
    (h : versionAt entity id s = .ok (some version)) :
    ∃ row, s.tables.row? entity id = some row ∧
      Row.int? row Row.versionColumn = .ok (some version) := by
  unfold versionAt at h
  split at h
  · cases h
  · rename_i row hrow
    exact ⟨row, hrow, h⟩

theorem versionAt_of_row? {entity : String} {id : Int64} {row : Row} {s : Memory}
    (h : s.tables.row? entity id = some row) :
    versionAt entity id s = Row.int? row Row.versionColumn := by
  simp [versionAt, h]

def Call.isInsert : Call → Bool
  | .insert .. => true
  | _ => false

theorem isInsert_silent {c : Call} (hc : c.isSilent = true) : c.isInsert = false := by
  cases c <;> first | rfl | cases hc

theorem after_cases (c : Call) (s : Memory) :
    ((after c s).tables = s.tables ∧ (after c s).lastId = s.lastId) ∨
      ∃ entity id row, (after c s).tables = s.tables.put entity id row ∧
        Row.int row Row.idColumn = .ok id ∧
        ((after c s).lastId = max s.lastId id ∨
          c.isInsert = true ∧ s.lastId < Int64.maxValue ∧ id = s.lastId + 1 ∧
            (after c s).lastId = id) := by
  by_cases hsilent : c.isSilent = true
  · exact .inl (tables_after_silent hsilent s)
  cases c with
  | insert entity row =>
      rcases insert_cases entity row s with ⟨hroom, hinsert⟩ | ⟨-, hinsert⟩
      · rw [after, hinsert]
        have hread := int_withVersionIfAny_id (s.lastId + 1) 0 row
        exact .inr ⟨entity, s.lastId + 1, _, rfl, hread, .inr ⟨rfl, hroom, rfl, rfl⟩⟩
      · rw [after, hinsert]
        exact .inl ⟨rfl, rfl⟩
  | update entity id expected row =>
      rcases update_cases entity id expected row s with ⟨written, hu, hread⟩ | ⟨fault, hu⟩
      · rw [after, hu]
        exact .inr ⟨entity, id, written, rfl, hread, .inl rfl⟩
      · rw [after, hu]
        exact .inl ⟨rfl, rfl⟩
  | writeExternally entity row =>
      cases hread : Row.int row Row.idColumn with
      | error fault =>
          rw [after, writeExternally, hread]
          exact .inl ⟨rfl, rfl⟩
      | ok id =>
          rw [after, writeExternally, hread]
          exact .inr ⟨entity, id, row, rfl, hread, .inl rfl⟩
  | _ => exact absurd rfl hsilent

theorem lastId_le_after (c : Call) (s : Memory) : s.lastId ≤ (after c s).lastId := by
  rcases after_cases c s with
    ⟨-, hlast⟩ | ⟨entity, id, row, -, -, hlast | ⟨-, hroom, hid, hlast⟩⟩
  · exact Int64.le_of_eq hlast.symm
  · exact hlast ▸ Integer.le_max_left ..
  · exact (hlast.trans hid) ▸ Int64.le_of_lt (Integer.lt_succ hroom)

structure Bounded (s : Memory) : Prop where
  nonneg : 0 ≤ s.lastId
  below : ∀ {entity : String} {id : Int64} {row : Row},
    s.tables.row? entity id = some row → id ≤ s.lastId

theorem bounded_start : Bounded {} :=
  ⟨Int64.le_refl 0, fun h => by cases h⟩

theorem Bounded.of_tables {s t : Memory} (h : Bounded s) (htables : t.tables = s.tables)
    (hlast : t.lastId = s.lastId) : Bounded t := by
  refine ⟨?_, ?_⟩
  · rw [hlast]
    exact h.nonneg
  · intro entity id row hrow
    rw [htables] at hrow
    rw [hlast]
    exact h.below hrow

theorem Bounded.of_write {s t : Memory} (h : Bounded s) {entity : String} {id : Int64} {row : Row}
    (htables : t.tables = s.tables.put entity id row) (hle : s.lastId ≤ t.lastId)
    (hid : id ≤ t.lastId) : Bounded t := by
  refine ⟨Int64.le_trans h.nonneg hle, ?_⟩
  intro e i r hrow
  rw [htables, RowFile.row?_put] at hrow
  split at hrow
  · rename_i hkey
    exact hkey.2 ▸ hid
  · exact Int64.le_trans (h.below hrow) hle

theorem Bounded.step {s : Memory} (h : Bounded s) (c : Call) : Bounded (after c s) := by
  rcases after_cases c s with
    ⟨htables, hlast⟩ | ⟨entity, id, row, htables, -, hlast | ⟨-, hroom, hid, hlast⟩⟩
  · exact h.of_tables htables hlast
  · refine h.of_write htables ?_ ?_ <;> rw [hlast]
    · exact Integer.le_max_left ..
    · exact Integer.le_max_right ..
  · have hlt := Integer.lt_succ hroom
    refine h.of_write htables ?_ ?_ <;> rw [hlast]
    · exact hid ▸ Int64.le_of_lt hlt
    · exact Int64.le_refl id

theorem bounded_afterAll (calls : List Call) {s : Memory} (h : Bounded s) :
    Bounded (afterAll calls s) := by
  induction calls generalizing s with
  | nil => exact h
  | cons c rest ih => exact ih (h.step c)

def IdsRead (s : Memory) : Prop :=
  ∀ entity id row, s.tables.row? entity id = some row → Row.int row Row.idColumn = .ok id

theorem idsRead_start : IdsRead {} := fun _ _ _ h => by cases h

theorem IdsRead.of_put {s t : Memory} (h : IdsRead s) {entity : String} {id : Int64} {row : Row}
    (htables : t.tables = s.tables.put entity id row)
    (hread : Row.int row Row.idColumn = .ok id) : IdsRead t := by
  intro e i r hrow
  rw [htables, RowFile.row?_put] at hrow
  split at hrow
  · rename_i hkey
    rw [← Option.some.inj hrow, hkey.2]
    exact hread
  · exact h e i r hrow

theorem IdsRead.step {s : Memory} (h : IdsRead s) (c : Call) : IdsRead (after c s) := by
  rcases after_cases c s with ⟨htables, -⟩ | ⟨entity, id, row, htables, hread, -⟩
  · intro entity id row hrow
    rw [htables] at hrow
    exact h entity id row hrow
  · exact h.of_put htables hread

theorem idsRead_afterAll (calls : List Call) {s : Memory} (h : IdsRead s) :
    IdsRead (afterAll calls s) := by
  induction calls generalizing s with
  | nil => exact h
  | cons c rest ih => exact ih (h.step c)

inductive Reachable : Memory → Prop where
  | start : Reachable {}
  | step {s : Memory} (c : Call) : Reachable s → Reachable (after c s)

theorem Reachable.bounded {s : Memory} (h : Reachable s) : Bounded s := by
  induction h with
  | start => exact bounded_start
  | step c _ ih => exact ih.step c

theorem Bounded.isNew {s : Memory} (h : Bounded s) (hroom : s.lastId < Int64.maxValue)
    (entity : String) : s.tables.row? entity (s.lastId + 1) = none := by
  cases hrow : s.tables.row? entity (s.lastId + 1) with
  | none => rfl
  | some row => exact absurd (h.below hrow) (Int64.not_le.mpr (Integer.lt_succ hroom))

end RecordQuery.Memory
