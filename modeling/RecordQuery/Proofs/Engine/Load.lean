import RecordQuery.Engine
import RecordQuery.Proofs.Entity.Reading
import RecordQuery.Proofs.Store.Projections
import RecordQuery.Proofs.Store.Undisturbed

namespace RecordQuery

namespace Memory

theorem int_of_find {calls : List Call} {entity : String} {id : Int64} {row : Row}
    (h : (find entity id (afterAll calls {})).1 = .ok (some row)) :
    Row.int row Row.idColumn = .ok id := by
  have htracked : Tracked entity id (noted (eventsOf entity id calls {}) none)
      (afterAll calls {}) := (tracked_none rfl).run calls
  obtain ⟨before, -, -, hrow⟩ := htracked.exists_moment h
  exact idsRead_afterAll before idsRead_start entity id row hrow

end Memory

namespace Engine

open RecordQuery.Memory

variable {E : Type} [Entity E]

def found (entity : String) (id : Int64) (clear : Bool) (s : Memory) : Option Row :=
  if clear then s.tables.row? entity id else (s.cache.row? entity id).or (s.tables.row? entity id)

def loading (entity : String) (id : Int64) (clear : Bool) : List Call :=
  if clear then [.evict entity id, .find entity id] else [.find entity id]

def answer (E : Type) [Entity E] : Option Row → Except EngineError (Option E)
  | none => .ok none
  | some row => (decode row).map some

theorem load_of_find {id : Int64} {clear : Bool} {e : Engine Memory} {row : Option Row}
    {t : Memory}
    (h : find (Entity.name E) id (if clear then Store.evict (Entity.name E) id e.store
      else e.store) = (.ok row, t)) :
    e.load id clear = (answer E row, { e with store := t }) := by
  have hfind : Store.find (Entity.name E) id (if clear then Store.evict (Entity.name E) id e.store
      else e.store) = (.ok row, t) := h
  unfold load
  simp only [hfind]
  cases row <;> rfl

theorem load_eq (id : Int64) (clear : Bool) (e : Engine Memory) :
    e.load id clear = (answer E (found (Entity.name E) id clear e.store),
      { e with store := afterAll (loading (Entity.name E) id clear) e.store }) := by
  refine load_of_find (E := E) (Prod.ext ((find_fst ..).trans (congrArg Except.ok ?_)) ?_)
  · cases clear with
    | false => rfl
    | true =>
        have hevicted : (Store.evict (Entity.name E) id e.store).cache.row? (Entity.name E) id =
            none := (Cache.row?_evict ..).trans (if_pos ⟨rfl, rfl⟩)
        rw [if_pos rfl, hevicted, Option.none_or]
        rfl
  · cases clear <;> rfl

theorem decode_eq_ok {row : Row} {a : E} : decode row = .ok a ↔ Entity.ofRow row = .ok a := by
  unfold decode
  cases (Entity.ofRow row : Except Row.ReadError E) <;> simp

theorem found_of_load {id : Int64} {clear : Bool} {e : Engine Memory} {a : E}
    (h : (e.load id clear).1 = .ok (some a)) :
    ∃ row, found (Entity.name E) id clear e.store = some row ∧ Entity.ofRow row = .ok a := by
  rw [load_eq] at h
  cases hfound : found (Entity.name E) id clear e.store with
  | none =>
      rw [hfound] at h
      cases h
  | some row =>
      rw [hfound] at h
      obtain ⟨b, hdecode, hb⟩ := map_eq_ok.mp h
      obtain rfl := Option.some.inj hb
      exact ⟨row, rfl, decode_eq_ok.mp hdecode⟩

def Holds (id : Int64) (a : E) (s : Memory) : Prop :=
  ∃ row, s.tables.row? (Entity.name E) id = some row ∧ Entity.ofRow row = .ok a

theorem row?_of_found {calls : List Call} {s : Memory} (hs : s = afterAll calls {})
    {entity : String} {id : Int64} {clear : Bool} {row : Row}
    (h : found entity id clear s = some row) :
    (s.tables.row? entity id).isSome ∧
      (CoherentAt entity id s → s.tables.row? entity id = some row) := by
  subst hs
  cases clear with
  | true => exact ⟨Option.isSome_of_eq_some h, fun _ => h⟩
  | false =>
      have htracked : Tracked entity id (noted (eventsOf entity id calls {}) none)
          (afterAll calls {}) := (tracked_none rfl).run calls
      rcases Option.or_eq_some_iff.mp h with hcached | ⟨-, hrow⟩
      · refine ⟨htracked.stored ?_, fun hcoherent => hcoherent row hcached⟩
        rw [htracked.cached] at hcached
        exact (Option.isSome_map).symm.trans (Option.isSome_of_eq_some hcached)
      · exact ⟨Option.isSome_of_eq_some hrow, fun _ => hrow⟩

theorem holds_of_list {first limit : Int64} {make : PlanMaker} {e : Engine Memory}
    {answers : List E}
    (h : e.list first limit make = .ok answers) {a : E} (ha : a ∈ answers) :
    ∃ id, Holds id a e.store := by
  unfold list query at h
  split at h
  · cases h
  · rename_i q hq
    have hentity : q.entity = Entity.name E := by
      split at hq
      · rw [← Except.ok.inj hq]
        rfl
      · cases hq
    split at h
    · cases h
    · rename_i rows hrows
      obtain ⟨row, hrow, hdecode⟩ := exists_of_mapM h ha
      obtain ⟨id, hstored⟩ := row?_of_rows hrows hrow
      exact ⟨id, row, hentity ▸ hstored, decode_eq_ok.mp hdecode⟩

variable [LawfulReading E] {id : Int64} {a : E}

theorem id_of_load {calls : List Call} {e : Engine Memory} (hstore : e.store = afterAll calls {})
    {clear : Bool} (h : (e.load id clear).1 = .ok (some a)) : Entity.id a = id := by
  obtain ⟨row, hfound, hread⟩ := found_of_load h
  have hid : Row.int row Row.idColumn = .ok id := by
    rw [hstore] at hfound
    cases clear with
    | true => exact idsRead_afterAll calls idsRead_start (Entity.name E) id row hfound
    | false => exact int_of_find ((find_fst ..).trans (congrArg Except.ok hfound))
  exact Except.ok.inj ((LawfulReading.id_of_row hread).symm.trans hid)

theorem versionAt_of_holds {s : Memory} (h : Holds id a s) :
    versionAt (Entity.name E) id s = .ok (Entity.version a) := by
  obtain ⟨row, hrow, hread⟩ := h
  exact (versionAt_of_row? hrow).trans (LawfulReading.version_of_row hread)

end Engine

end RecordQuery
