import RecordQuery.Proofs.Engine.Load
import RecordQuery.Proofs.Engine.Save

namespace RecordQuery

namespace Engine

open RecordQuery.Memory

variable {E : Type} [Entity E]

structure Raised (a : E) (version : Int64) (r : Except EngineError E × Engine Memory) : Prop where
  answer : r.1 = .ok (Entity.withVersion a (version + 1))
  held : Holds (Entity.id a) (Entity.withVersion a (version + 1)) r.2.store
  stored : versionAt (Entity.name E) (Entity.id a) r.2.store = .ok (some (version + 1))
  next : (version + 1).toInt = version.toInt + 1

def Carried (a : E) (version : Int64) (flush : Bool) (e : Engine Memory) : Prop :=
  (version < Int64.maxValue → Raised a version (e.save a flush)) ∧
    (version = Int64.maxValue → e.save a flush = (.error (.storage .overflow), e))

theorem carried_of_current [LawfulVersions E] {a : E} (hid : Entity.id a ≠ 0) {version : Int64}
    (hversion : Entity.version a = some version) {e : Engine Memory}
    (hcurrent : versionAt (Entity.name E) (Entity.id a) e.store = .ok (some version))
    (flush : Bool) : Carried a version flush e := by
  constructor
  · intro hroom
    have hsave := save_current hid hversion hcurrent hroom flush
    have hrow : (e.save a flush).2.store.tables.row? (Entity.name E) (Entity.id a) =
        some (versioned (Entity.id a) (version + 1) (Entity.toRow a)) := by
      rw [hsave, tables_flushed]
      exact (row?_write ..).trans (if_pos ⟨rfl, rfl⟩)
    have hread := LawfulVersions.ofRow_versioned a (Entity.id a) (version + 1)
    rw [LawfulVersions.withId_id] at hread
    exact ⟨congrArg Prod.fst hsave, ⟨_, hrow, hread⟩,
      (versionAt_of_row? hrow).trans (int?_versioned ..), Integer.toInt_succ hroom⟩
  · rintro rfl
    have hsave := save_refused hid hversion
      (fun h : _ ∧ Int64.maxValue < Int64.maxValue => Int64.lt_irrefl h.2) (e := e) flush
    rw [hsave, refusal, hcurrent]
    simp

variable [LawfulReading E] {id : Int64} {a : E}

theorem save_after_load [LawfulVersions E] {calls between : List Call} {e later : Engine Memory}
    (hstore : e.store = afterAll calls {}) (hid : id ≠ 0) {clear : Bool}
    (hload : (e.load id clear).1 = .ok (some a))
    (hbetween : Undisturbed (Entity.name E) id between (e.load (E := E) id clear).2.store)
    (hlater : later.store = afterAll between (e.load (E := E) id clear).2.store)
    {version : Int64} (hversion : Entity.version a = some version) {b : E}
    (hsame : Entity.id b = Entity.id a ∧ Entity.version b = Entity.version a) (flush : Bool) :
    (clear = true → Holds id a later.store ∧ Carried b version flush later) ∧
      ∀ stored : E, Holds id stored later.store →
        ((∃ saved, (later.save b flush).1 = .ok saved) ↔
          Entity.version stored = Entity.version a ∧ version < Int64.maxValue) ∧
        (Entity.version stored = Entity.version a → Carried b version flush later) ∧
        (Entity.version stored ≠ Entity.version a →
          later.save b flush = (.error (.alreadyModified (Entity.name E) id
            (.versionConflict (Entity.name E) id version (Entity.version stored))), later)) := by
  have hb : Entity.id b = id := hsame.1.trans (id_of_load hstore hload)
  have hbid : Entity.id b ≠ 0 := hb ▸ hid
  have hbversion : Entity.version b = some version := hsame.2.trans hversion
  have hcarried : versionAt (Entity.name E) id later.store = .ok (some version) →
      Carried b version flush later := by
    intro hcurrent
    exact carried_of_current hbid hbversion (hb.symm ▸ hcurrent) flush
  constructor
  · rintro rfl
    obtain ⟨row, hfound, hread⟩ := found_of_load hload
    have hholds : Holds id a later.store := by
      refine ⟨row, ?_, hread⟩
      rw [hlater, row?_undisturbed hbetween, load_eq]
      exact (congrArg (RowFile.row? · _ _) (tables_find ..)).trans hfound
    exact ⟨hholds, hcarried ((versionAt_of_holds hholds).trans (congrArg Except.ok hversion))⟩
  · intro stored hholds
    have hat := versionAt_of_holds hholds
    rw [hversion]
    by_cases hsame : Entity.version stored = some version
    · have hsave := hcarried (hat.trans (congrArg Except.ok hsame))
      refine ⟨⟨?_, fun h => ⟨_, (hsave.1 h.2).answer⟩⟩, fun _ => hsave, fun hne => absurd hsame hne⟩
      rintro ⟨saved, hsaved⟩
      refine ⟨hsame, Integer.lt_maxValue_of_ne fun hlast => ?_⟩
      rw [hsave.2 hlast] at hsaved
      cases hsaved
    · have hrefused := save_refused hbid hbversion (e := later)
        (by rw [hb, hat]; exact fun h => hsame (Except.ok.inj h.1)) flush
      rw [hb, refusal_of_ne hat hsame] at hrefused
      refine ⟨⟨?_, fun h => absurd h.1 hsame⟩, fun h => absurd h hsame, fun _ => hrefused⟩
      rintro ⟨saved, hsaved⟩
      rw [hrefused] at hsaved
      cases hsaved

def revisedPage : Document := { audit := { id := 1, version := 1 }, title := "page" }

def revisions : List Call := [
  .insert "document" page.toRow, .writeExternally "document" revisedPage.toRow]

def revised : Engine Memory := { store := afterAll revisions {} }

def resumed : Engine Memory :=
  { store := afterAll [.next "page"] (revised.load (E := Document) 1 false).2.store }

theorem save_after_load_of_revised :
    (revised.load 1 false).1 = .ok (some storedPage) ∧
      resumed.save { storedPage with title := "leaf" } true =
        (.error (.alreadyModified "document" 1 (.versionConflict "document" 1 0 (some 1))),
          resumed) ∧
      (revised.load 1 true).1 = .ok (some revisedPage) ∧
      Raised { revisedPage with title := "leaf" } 1
        ((revised.load (E := Document) 1 true).2.save
          { revisedPage with title := "leaf" } true) := by
  have hcached : (revised.load 1 false).1 = .ok (some storedPage) := by decide
  have hcurrent : (revised.load 1 true).1 = .ok (some revisedPage) := by decide
  refine ⟨hcached, ?_, hcurrent, ?_⟩
  · have hbetween : Undisturbed "document" 1 [.next "page"]
        (revised.load (E := Document) 1 false).2.store := undisturbed_of_silent (by decide)
    have hlater : resumed.store =
        afterAll [.next "page"] (revised.load (E := Document) 1 false).2.store := rfl
    obtain ⟨-, hcases⟩ := save_after_load rfl (by decide) hcached hbetween hlater rfl
      (b := { storedPage with title := "leaf" }) ⟨rfl, rfl⟩ true
    exact (hcases revisedPage ⟨revisedPage.toRow, by decide, by decide⟩).2.2
      (by decide)
  · have hbetween : Undisturbed "document" 1 []
        (revised.load (E := Document) 1 true).2.store := trivial
    exact ((save_after_load rfl (by decide) hcurrent hbetween rfl rfl
      (b := { revisedPage with title := "leaf" }) ⟨rfl, rfl⟩ true).1 rfl).2.1 (by decide)

end Engine

end RecordQuery
