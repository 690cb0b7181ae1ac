import RecordQuery.Engine
import RecordQuery.Proofs.Entity.Versions

namespace RecordQuery

namespace Engine

open RecordQuery.Memory

variable {E : Type} [Entity E]

structure Persisted (saved : E) (s t : Memory) : Prop where
  held : ∃ row, Entity.ofRow row = .ok saved ∧
    t.tables.row? (Entity.name E) (Entity.id saved) = some row ∧
    t.cache.row? (Entity.name E) (Entity.id saved) = some row
  others : ∀ entity id, ¬(entity = Entity.name E ∧ id = Entity.id saved) →
    t.tables.row? entity id = s.tables.row? entity id ∧
    t.cache.row? entity id = s.cache.row? entity id

theorem persisted_write {saved : E} {row : Row} (h : Entity.ofRow row = .ok saved) {s t : Memory}
    (htables : t.tables = (write (Entity.name E) (Entity.id saved) row s).tables)
    (hcache : t.cache = (write (Entity.name E) (Entity.id saved) row s).cache) :
    Persisted saved s t := by
  refine ⟨⟨row, h, ?_, ?_⟩, ?_⟩
  · simp [htables]
  · simp [hcache, write]
  · intro entity id hother
    exact ⟨by simp [htables, hother], by simp [hcache, write, hother]⟩

def flushed (flush : Bool) (s : Memory) : Memory := if flush then Store.flush s else s

@[simp] theorem tables_flushed (flush : Bool) (s : Memory) :
    (flushed flush s).tables = s.tables := by
  cases flush <;> rfl

@[simp] theorem cache_flushed (flush : Bool) (s : Memory) :
    (flushed flush s).cache = s.cache := by
  cases flush <;> rfl

variable [LawfulVersions E]

theorem decode_versioned (a : E) (id version : Int64) :
    decode (versioned id version (Entity.toRow a)) =
      .ok (Entity.withVersion (Entity.withId a id) version) := by
  rw [decode, LawfulVersions.ofRow_versioned]

theorem save_transient {a : E} (h : Entity.id a = 0) (flush : Bool) {e : Engine Memory}
    (hroom : e.store.lastId < Int64.maxValue) :
    e.save a flush =
      (.ok (Entity.withVersion (Entity.withId a (e.store.lastId + 1)) 0),
        { e with store := flushed flush (insert (Entity.name E) (Entity.toRow a) e.store).2 }) := by
  have hinsert := insert_versioned (Entity.name E) (LawfulVersions.hasVersion a) hroom
  have hdecode := decode_versioned a (e.store.lastId + 1) 0
  have hstore : Store.insert (Entity.name E) (Entity.toRow a) e.store =
      insert (Entity.name E) (Entity.toRow a) e.store := rfl
  simp [save, Entity.isTransient, h, hstore, hinsert, lift, hdecode, flushed]

omit [LawfulVersions E] in
theorem save_transient_overflow {a : E} (h : Entity.id a = 0) (flush : Bool) {e : Engine Memory}
    (hlast : e.store.lastId = Int64.maxValue) :
    e.save a flush = (.error (.storage .overflow), e) := by
  have hstore : Store.insert (Entity.name E) (Entity.toRow a) e.store =
      (.error .overflow, e.store) :=
    insert_overflow (Entity.name E) (Entity.toRow a) hlast
  simp [save, Entity.isTransient, h, hstore, lift]

omit [LawfulVersions E] in
theorem save_stored {a : E} (h : Entity.id a ≠ 0) {version : Int64}
    (hversion : Entity.version a = some version) (flush : Bool) (e : Engine Memory) :
    e.save a flush =
      match update (Entity.name E) (Entity.id a) (some version) (Entity.toRow a) e.store with
      | (.ok row, s) => (decode row, { e with store := flushed flush s })
      | (.error fault, s) =>
          (.error (.ofMerge (Entity.name E) (Entity.id a) fault), { e with store := s }) := by
  have hstore : (Store.update : String → Int64 → Option Int64 → Row → Memory → _) = update := rfl
  have htransient : Entity.isTransient a = false := by simpa [Entity.isTransient] using h
  simp only [save, htransient, hversion, hstore, Bool.false_eq_true, if_false]
  cases hu : update (Entity.name E) (Entity.id a) (some version) (Entity.toRow a) e.store with
  | mk answer s => cases answer <;> rfl

theorem save_current {a : E} (h : Entity.id a ≠ 0) {version : Int64}
    (hversion : Entity.version a = some version) {e : Engine Memory}
    (hcurrent : versionAt (Entity.name E) (Entity.id a) e.store = .ok (some version))
    (hroom : version < Int64.maxValue) (flush : Bool) :
    e.save a flush =
      (.ok (Entity.withVersion a (version + 1)),
        { e with
          store := flushed flush (replace (Entity.name E) (Entity.id a)
            (versioned (Entity.id a) (version + 1) (Entity.toRow a)) e.store).2 }) := by
  have hdecode := decode_versioned a (Entity.id a) (version + 1)
  rw [LawfulVersions.withId_id] at hdecode
  rw [save_stored h hversion, update_current hcurrent hroom]
  exact Prod.ext hdecode rfl

def refusal (entity : String) (id version : Int64) (s : Memory) : EngineError :=
  match versionAt entity id s with
  | .ok actual =>
      if actual = some version then .storage .overflow
      else .alreadyModified entity id (.versionConflict entity id version actual)
  | .error unreadable => .storage (.decode entity (.read unreadable))

theorem refusal_of_ne {entity : String} {id version : Int64} {s : Memory} {actual : Option Int64}
    (h : versionAt entity id s = .ok actual) (hne : actual ≠ some version) :
    refusal entity id version s =
      .alreadyModified entity id (.versionConflict entity id version actual) := by
  rw [refusal, h]
  exact if_neg hne

omit [LawfulVersions E] in
theorem save_refused {a : E} (h : Entity.id a ≠ 0) {version : Int64}
    (hversion : Entity.version a = some version) {e : Engine Memory}
    (hother : ¬(versionAt (Entity.name E) (Entity.id a) e.store = .ok (some version) ∧
      version < Int64.maxValue)) (flush : Bool) :
    e.save a flush = (.error (refusal (Entity.name E) (Entity.id a) version e.store), e) := by
  rw [save_stored h hversion]
  cases hat : versionAt (Entity.name E) (Entity.id a) e.store with
  | ok actual =>
      by_cases hactual : actual = some version
      · subst hactual
        rcases numberAfter_cases version with ⟨hroom, -⟩ | ⟨rfl, -⟩
        · exact absurd ⟨hat, hroom⟩ hother
        · rw [update_overflow hat, refusal, hat]
          rfl
      · rw [update_conflict hat hactual, refusal_of_ne hat hactual]
        rfl
  | error unreadable =>
      rw [update_unreadable hat, refusal, hat]
      rfl

theorem save_exact {e : Engine Memory} (hreach : Reachable e.store) (a : E) (flush : Bool)
    {version : Int64} (hversion : Entity.version a = some version) :
    (Entity.id a = 0 → e.store.lastId < Int64.maxValue → ∃ saved,
        (e.save a flush).1 = .ok saved ∧
        saved = Entity.withVersion (Entity.withId a (e.store.lastId + 1)) 0 ∧
        0 < Entity.id saved ∧ Entity.version saved = some 0 ∧
        (∀ entity, e.store.tables.row? entity (Entity.id saved) = none) ∧
        Persisted saved e.store (e.save a flush).2.store) ∧
      (Entity.id a = 0 → e.store.lastId = Int64.maxValue →
        e.save a flush = (.error (.storage .overflow), e)) ∧
      (Entity.id a ≠ 0 →
        ((∃ saved, (e.save a flush).1 = .ok saved) ↔ version < Int64.maxValue ∧
          ∃ row, e.store.tables.row? (Entity.name E) (Entity.id a) = some row ∧
            Row.int? row Row.versionColumn = .ok (some version)) ∧
        (∀ saved, (e.save a flush).1 = .ok saved →
          saved = Entity.withVersion a (version + 1) ∧ Entity.id saved = Entity.id a ∧
            (version + 1).toInt = version.toInt + 1 ∧
            Persisted saved e.store (e.save a flush).2.store) ∧
        (∀ fault, (e.save a flush).1 = .error fault → (e.save a flush).2 = e ∧
          fault = match versionAt (Entity.name E) (Entity.id a) e.store with
            | .ok actual =>
                if actual = some version then .storage .overflow
                else .alreadyModified (Entity.name E) (Entity.id a)
                  (.versionConflict (Entity.name E) (Entity.id a) version actual)
            | .error unreadable => .storage (.decode (Entity.name E) (.read unreadable)))) := by
  refine ⟨?_, fun h hlast => save_transient_overflow h flush hlast, ?_⟩
  · intro h hroom
    have hsave := save_transient h flush hroom
    have hid := LawfulVersions.id_set a (e.store.lastId + 1) 0
    refine ⟨_, congrArg Prod.fst hsave, rfl, ?_, LawfulVersions.version_set .., ?_, ?_⟩
    · rw [hid]
      exact Int64.lt_of_le_of_lt hreach.bounded.nonneg (Integer.lt_succ hroom)
    · intro entity
      rw [hid]
      exact hreach.bounded.isNew hroom entity
    · have hinsert := insert_versioned (Entity.name E) (LawfulVersions.hasVersion a) hroom
      refine persisted_write (LawfulVersions.ofRow_versioned a (e.store.lastId + 1) 0) ?_ ?_
      · rw [hsave, tables_flushed, hinsert, hid]
      · rw [hsave, cache_flushed, hinsert, hid]
  · intro h
    by_cases hcurrent : versionAt (Entity.name E) (Entity.id a) e.store = .ok (some version) ∧
        version < Int64.maxValue
    · obtain ⟨hcurrent, hroom⟩ := hcurrent
      have hsave := save_current h hversion hcurrent hroom flush
      have hid : Entity.id (Entity.withVersion a (version + 1)) = Entity.id a := by
        simpa [LawfulVersions.withId_id] using LawfulVersions.id_set a (Entity.id a) (version + 1)
      have hread := LawfulVersions.ofRow_versioned a (Entity.id a) (version + 1)
      rw [LawfulVersions.withId_id] at hread
      rw [hsave]
      refine ⟨⟨fun _ => ⟨hroom, exists_of_versionAt hcurrent⟩, fun _ => ⟨_, rfl⟩⟩, ?_, ?_⟩
      · rintro saved ⟨⟩
        refine ⟨rfl, hid, Integer.toInt_succ hroom, persisted_write hread ?_ ?_⟩
        · rw [tables_flushed, hid]
          rfl
        · rw [cache_flushed, hid]
          rfl
      · rintro fault ⟨⟩
    · have hsave := save_refused h hversion hcurrent flush
      rw [hsave]
      refine ⟨⟨?_, ?_⟩, ?_, ?_⟩
      · rintro ⟨saved, ⟨⟩⟩
      · rintro ⟨hroom, row, hrow, hread⟩
        exact absurd ⟨(versionAt_of_row? hrow).trans hread, hroom⟩ hcurrent
      · rintro saved ⟨⟩
      · rintro fault ⟨⟩
        exact ⟨rfl, rfl⟩

def page : Document := { title := "page" }

def pageStore : Memory := (insert "document" page.toRow {}).2

def storedPage : Document := { audit := { id := 1 }, title := "page" }

theorem save_exact_of_page :
    Reachable pageStore ∧ Entity.version storedPage = some 0 ∧
      (save storedPage true { store := pageStore }).1 =
        .ok { audit := { id := 1, version := 1 }, title := "page" } := by
  have hreach : Reachable pageStore := Reachable.start.step (.insert "document" page.toRow)
  obtain ⟨-, -, hmerge⟩ := save_exact (e := { store := pageStore }) hreach storedPage true rfl
  obtain ⟨hiff, hsaved, -⟩ := hmerge (by decide)
  obtain ⟨saved, hsave⟩ :=
    hiff.mpr ⟨by decide, versioned 1 0 page.toRow, by decide +kernel, by decide +kernel⟩
  refine ⟨hreach, rfl, hsave.trans ?_⟩
  rw [(hsaved saved hsave).1]
  rfl

end Engine

end RecordQuery
