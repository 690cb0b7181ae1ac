import RecordQuery.Proofs.Store.Staleness

namespace RecordQuery.Memory

variable (entity : String) (id : Int64)

def writes (c : Call) (s : Memory) : Bool :=
  !c.isSilent && (puts entity id c s || overwrites entity id c)

def Undisturbed : List Call → Memory → Prop
  | [], _ => True
  | c :: rest, s => writes entity id c s = false ∧ Undisturbed rest (after c s)

variable {entity : String} {id : Int64} {s t : Memory}

theorem row?_after_of_writes {c : Call} (h : writes entity id c s = false) :
    (after c s).tables.row? entity id = s.tables.row? entity id := by
  by_cases hsilent : c.isSilent = true
  · rw [(tables_after_silent hsilent s).1]
  cases c with
  | insert e row =>
      rcases insert_cases e row s with ⟨-, hinsert⟩ | ⟨-, hinsert⟩
      · have hkey : ¬(entity = e ∧ id = s.lastId + 1) := by
          rintro ⟨rfl, rfl⟩
          simp [writes, Call.isSilent, puts, hinsert, Except.isOk, Except.toBool] at h
        rw [after, hinsert]
        exact (row?_write ..).trans (if_neg hkey)
      · rw [after, hinsert]
  | update e i expected row =>
      rcases update_cases e i expected row s with ⟨written, hu, -⟩ | ⟨fault, hu⟩
      · have hkey : ¬(entity = e ∧ id = i) := by
          rintro ⟨rfl, rfl⟩
          simp [writes, Call.isSilent, puts, hu, replace, Except.isOk, Except.toBool] at h
        rw [after, hu]
        exact (row?_write ..).trans (if_neg hkey)
      · rw [after, hu]
  | writeExternally e row =>
      cases hid : Row.int row Row.idColumn with
      | error fault => rw [after, writeExternally, hid]
      | ok i =>
          have hkey : ¬(entity = e ∧ id = i) := by
            rintro ⟨rfl, rfl⟩
            simp [writes, Call.isSilent, overwrites, hid] at h
          rw [after, writeExternally, hid]
          exact (RowFile.row?_put ..).trans (if_neg hkey)
  | _ => exact absurd rfl hsilent

theorem row?_undisturbed {calls : List Call} (h : Undisturbed entity id calls s) :
    (afterAll calls s).tables.row? entity id = s.tables.row? entity id := by
  induction calls generalizing s with
  | nil => rfl
  | cons c rest ih => exact (ih h.2).trans (row?_after_of_writes h.1)

theorem undisturbed_of_silent {calls : List Call} (h : ∀ c ∈ calls, c.isSilent = true) :
    Undisturbed entity id calls s := by
  induction calls generalizing s with
  | nil => trivial
  | cons c rest ih =>
      obtain ⟨hc, hrest⟩ := List.forall_mem_cons.mp h
      exact ⟨by simp [writes, hc], ih hrest⟩

def CoherentAt (entity : String) (id : Int64) (s : Memory) : Prop :=
  ∀ row, s.cache.row? entity id = some row → s.tables.row? entity id = some row

theorem CoherentAt.tracked (h : CoherentAt entity id s) :
    Tracked entity id ((s.cache.row? entity id).map (·, false)) s := by
  cases hcached : s.cache.row? entity id with
  | none => exact tracked_none hcached
  | some row => exact tracked_put hcached (h row hcached)

theorem coherentAt_of_tracked (entry : Option Row)
    (h : Tracked entity id (entry.map (·, false)) s) : CoherentAt entity id s := by
  intro row hrow
  refine h.current row ?_
  rw [h.cached, Option.map_map] at hrow
  obtain ⟨r, rfl, hr⟩ := Option.map_eq_some_iff.mp hrow
  exact congrArg (fun r => some (r, false)) hr

theorem eventOf_ne_overwritten {c : Call} (hc : overwrites entity id c = false) :
    eventOf entity id c s ≠ some .overwritten := by
  rw [eventOf, hc]
  split
  · simp
  · split <;> simp

theorem CoherentAt.after (h : CoherentAt entity id s) {c : Call}
    (hc : overwrites entity id c = false) :
    CoherentAt entity id (after c s) := by
  have hstep := h.tracked.step c
  cases hevent : eventOf entity id c s with
  | none =>
      rw [hevent] at hstep
      exact coherentAt_of_tracked _ hstep
  | some event =>
      rw [hevent] at hstep
      cases event with
      | put row => exact coherentAt_of_tracked (some row) hstep
      | dropped => exact coherentAt_of_tracked none hstep
      | overwritten => exact absurd hevent (eventOf_ne_overwritten hc)

theorem overwrites_of_writes {c : Call} (h : writes entity id c s = false) :
    overwrites entity id c = false := by
  cases c with
  | writeExternally e row => simpa [writes, Call.isSilent, puts] using h
  | _ => rfl

theorem Reachable.exists_calls {s : Memory} (h : Reachable s) : ∃ calls, s = afterAll calls {} := by
  induction h with
  | start => exact ⟨[], rfl⟩
  | step c _ ih =>
      obtain ⟨calls, rfl⟩ := ih
      exact ⟨calls ++ [c], (afterAll_append calls [c] {}).symm⟩

theorem Reachable.silent {s : Memory} (h : Reachable s) {calls : List Call}
    (hcalls : ∀ c ∈ calls, c.isSilent = true) :
    Reachable (afterAll calls s) ∧ (afterAll calls s).tables = s.tables ∧
      (afterAll calls s).lastId = s.lastId := by
  induction calls generalizing s with
  | nil => exact ⟨h, rfl, rfl⟩
  | cons c rest ih =>
      obtain ⟨hc, hrest⟩ := List.forall_mem_cons.mp hcalls
      obtain ⟨hreach, htables, hlast⟩ := ih (h.step c) hrest
      exact ⟨hreach, htables.trans (tables_after_silent hc s).1,
        hlast.trans (tables_after_silent hc s).2⟩

end RecordQuery.Memory
