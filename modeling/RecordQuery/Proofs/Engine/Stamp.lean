import RecordQuery.Proofs.Engine.Save
import RecordQuery.Proofs.Entity.Reading
import RecordQuery.Proofs.Store.Undisturbed

namespace RecordQuery

namespace Engine

open RecordQuery.Memory

variable {E : Type} [Audited E] [LawfulAudit E]

theorem audit_stamp (user : Option Int64) (now : Time.Instant) (a : E) :
    Audited.audit (stamp user now a) =
      { (if Entity.isTransient a then
          { Audited.audit a with created := now, creator := user }
        else Audited.audit a) with edited := now, editor := user } := by
  rw [stamp, LawfulAudit.audit_withAudit]

theorem id_stamp (user : Option Int64) (now : Time.Instant) (a : E) :
    Entity.id (stamp user now a) = Entity.id a := by
  rw [LawfulAudit.id_audit, audit_stamp, LawfulAudit.id_audit]
  split <;> rfl

theorem version_stamp (user : Option Int64) (now : Time.Instant) (a : E) :
    Entity.version (stamp user now a) = Entity.version a := by
  rw [LawfulAudit.version_audit, audit_stamp, LawfulAudit.version_audit]
  split <;> rfl

theorem reachable_flushed {s : Memory} (h : Reachable s) (flush : Bool) :
    Reachable (flushed flush s) := by
  cases flush with
  | false => exact h
  | true => exact h.step .flush

theorem lastId_flushed (flush : Bool) (s : Memory) : (flushed flush s).lastId = s.lastId := by
  cases flush <;> rfl

variable {a : E} {e : Engine Memory} (user : Option Int64) (flush : Bool)

theorem saveAudited_transient (h : Entity.id a = 0) (hreach : Reachable e.store) :
    e.saveAudited a user flush = (.error (.storage .overflow), e) ∨
      ∃ saved t, e.store.lastId < Int64.maxValue ∧
        e.saveAudited a user flush = (.ok saved, { e with store := t }) ∧
        Audited.audit saved = { Audited.audit (stamp user e.clock a) with
          id := e.store.lastId + 1, version := 0 } ∧
        Persisted saved e.store t ∧ Reachable t ∧ e.store.lastId ≤ t.lastId := by
  have hid : Entity.id (stamp user e.clock a) = 0 := (id_stamp ..).trans h
  let row := Entity.toRow (stamp user e.clock a)
  let number := e.store.lastId + 1
  rcases numberAfter_cases e.store.lastId with ⟨hroom, -⟩ | ⟨hlast, -⟩
  · have hinsert := insert_versioned (Entity.name E)
      (LawfulVersions.hasVersion (stamp user e.clock a)) hroom
    have hsaved := LawfulVersions.id_set (stamp user e.clock a) number 0
    refine .inr ⟨_, _, hroom, save_transient hid flush hroom,
      LawfulAudit.audit_versioned .., ?_, ?_, ?_⟩
    · refine persisted_write (LawfulVersions.ofRow_versioned (stamp user e.clock a) number 0) ?_ ?_
      · rw [tables_flushed, hinsert, hsaved]
      · rw [cache_flushed, hinsert, hsaved]
    · exact reachable_flushed (hreach.step (.insert (Entity.name E) row)) flush
    · rw [lastId_flushed]
      exact lastId_le_after (.insert (Entity.name E) row) e.store
  · exact .inl (save_transient_overflow hid flush hlast)

theorem saveAudited_stored (h : Entity.id a ≠ 0) (hreach : Reachable e.store) :
    (∃ fault, e.saveAudited a user flush = (.error fault, e)) ∨
      ∃ version saved t, Entity.version a = some version ∧ version < Int64.maxValue ∧
        versionAt (Entity.name E) (Entity.id a) e.store = .ok (some version) ∧
        e.saveAudited a user flush = (.ok saved, { e with store := t }) ∧
        Audited.audit saved = { Audited.audit (stamp user e.clock a) with
          id := Entity.id a, version := version + 1 } ∧
        Persisted saved e.store t ∧ Reachable t ∧ e.store.lastId ≤ t.lastId := by
  let stamped := stamp user e.clock a
  have hid : Entity.id stamped = Entity.id a := id_stamp ..
  have hstored : Entity.id stamped ≠ 0 := hid ▸ h
  have hversion := (version_stamp user e.clock a).trans (LawfulAudit.version_audit a)
  let version := (Audited.audit a).version
  by_cases hcurrent : versionAt (Entity.name E) (Entity.id stamped) e.store = .ok (some version) ∧
      version < Int64.maxValue
  · obtain ⟨hcurrent, hroom⟩ := hcurrent
    right
    have hupdate := update_current hcurrent hroom (Entity.toRow stamped)
    have hkept : Entity.withId stamped (Entity.id a) = stamped := by
      rw [← hid]
      exact LawfulVersions.withId_id stamped
    have haudit := LawfulAudit.audit_versioned stamped (Entity.id a) (version + 1)
    have hsaved := LawfulVersions.id_set stamped (Entity.id a) (version + 1)
    have hread := LawfulVersions.ofRow_versioned stamped (Entity.id a) (version + 1)
    rw [hkept] at haudit hsaved hread
    let merge : Call :=
      .update (Entity.name E) (Entity.id stamped) (some version) (Entity.toRow stamped)
    have hwritten : Memory.after merge e.store = (replace (Entity.name E) (Entity.id stamped)
          (versioned (Entity.id stamped) (version + 1) (Entity.toRow stamped)) e.store).2 :=
      congrArg Prod.snd hupdate
    refine ⟨version, _, _, LawfulAudit.version_audit a, hroom, hid ▸ hcurrent,
      save_current hstored hversion hcurrent hroom flush, haudit, ?_, ?_, ?_⟩
    · refine persisted_write hread ?_ ?_
      · rw [tables_flushed, hsaved, hid]
        rfl
      · rw [cache_flushed, hsaved, hid]
        rfl
    · rw [← hwritten]
      exact reachable_flushed (hreach.step merge) flush
    · rw [← hwritten, lastId_flushed]
      exact lastId_le_after merge e.store
  · exact .inl ⟨_, save_refused hstored hversion hcurrent flush⟩

variable {user flush} in
theorem saveAudited_refused (hreach : Reachable e.store) {fault : EngineError}
    (h : (e.saveAudited a user flush).1 = .error fault) :
    e.saveAudited a user flush = (.error fault, e) := by
  by_cases hid : Entity.id a = 0
  · rcases saveAudited_transient user flush hid hreach with hsave | ⟨saved, t, -, hsave, -⟩ <;>
      rw [hsave] at h <;> cases h
    exact hsave
  · rcases saveAudited_stored user flush hid hreach with ⟨other, hsave⟩ |
      ⟨version, saved, t, -, -, -, hsave, -⟩ <;> rw [hsave] at h <;> cases h
    exact hsave

end Engine

end RecordQuery
