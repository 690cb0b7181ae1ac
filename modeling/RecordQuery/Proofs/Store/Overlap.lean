import RecordQuery.Proofs.Store.Undisturbed

namespace RecordQuery.Memory

/-- What is left of a request: the steps of a look-up, or one step. -/
inductive Task where
  | ask (entity : String) (id : Int64)
  | read (entity : String) (id : Int64)
  | fill (entity : String) (id : Int64) (row : Row)
  | once (c : Call)
  | found (row : Option Row)
  | done
  deriving Inhabited

namespace Task

def ofCall : Call → Task
  | .find entity id => ask entity id
  | c => once c

def step : Task → Memory → Task × Memory
  | ask entity id, s =>
      match s.cache.get entity id with
      | (some row, cache) => (found (some row), { s with cache := cache })
      | (none, cache) => (read entity id, { s with cache := cache })
  | read entity id, s =>
      match s.tables.row? entity id with
      | some row => (fill entity id row, s)
      | none => (found none, s)
  | fill entity id row, s =>
      (found (some row), { s with cache := s.cache.put entity id row })
  | once c, s => (done, after c s)
  | found row, s => (found row, s)
  | done, s => (done, s)

def isOver : Task → Bool
  | found _ => true
  | done => true
  | _ => false

def fills (entity : String) (id : Int64) : Task → Bool
  | fill e i _ => e = entity ∧ i = id
  | _ => false

def writes (entity : String) (id : Int64) : Task → Memory → Bool
  | once c, s => puts entity id c s
  | _, _ => false

end Task

def interleave : List Nat → List Task → Memory → List Task × Memory
  | [], tasks, s => (tasks, s)
  | n :: rest, tasks, s =>
      match tasks[n]? with
      | none => interleave rest tasks s
      | some t => interleave rest (tasks.set n (t.step s).1) (t.step s).2

def overtakes (entity : String) (id : Int64) : List Nat → List Task → Memory → Bool
  | [], _, _ => false
  | n :: rest, tasks, s =>
      match tasks[n]? with
      | none => overtakes entity id rest tasks s
      | some t =>
          t.writes entity id s && tasks.any (Task.fills entity id) ||
            overtakes entity id rest (tasks.set n (t.step s).1) (t.step s).2

def Call.isExternal : Call → Bool
  | .writeExternally .. => true
  | _ => false

theorem interleave_find (entity : String) (id : Int64) (s : Memory) :
    ∃ row, interleave [0, 0, 0] [Task.ofCall (.find entity id)] s =
        ([.found row], (find entity id s).2) ∧ (find entity id s).1 = .ok row := by
  unfold find
  cases hget : s.cache.get entity id with
  | mk cached cache =>
      cases cached with
      | some row => exact ⟨some row, by simp [interleave, Task.ofCall, Task.step, hget], rfl⟩
      | none =>
          cases hrow : s.tables.row? entity id with
          | some row =>
              exact ⟨some row, by simp [interleave, Task.ofCall, Task.step, hget, hrow], rfl⟩
          | none => exact ⟨none, by simp [interleave, Task.ofCall, Task.step, hget, hrow], rfl⟩

variable {entity : String} {id : Int64} {s t : Memory} {tasks : List Task}

theorem overwrites_eq_false {c : Call} (hc : c.isExternal = false) :
    overwrites entity id c = false := by
  cases c with
  | writeExternally _ _ => cases hc
  | _ => rfl

theorem writes_eq_false {c : Call} (hc : c.isExternal = false) (h : puts entity id c s = false) :
    writes entity id c s = false := by
  rw [writes, h, overwrites_eq_false hc]
  exact Bool.and_false _

structure UpToDate (entity : String) (id : Int64) (tasks : List Task) (s : Memory) : Prop where
  coherent : CoherentAt entity id s
  filling : ∀ row, .fill entity id row ∈ tasks → s.tables.row? entity id = some row
  own : ∀ c, .once c ∈ tasks → c.isExternal = false

theorem Task.eq_of_ofCall_eq_once {c d : Call} (h : ofCall c = once d) : c = d := by
  cases c with
  | find _ _ => cases h
  | _ => exact once.inj h

theorem upToDate_start {calls : List Call} (hcalls : ∀ c ∈ calls, c.isExternal = false)
    (h : CoherentAt entity id s) : UpToDate entity id (calls.map Task.ofCall) s := by
  refine ⟨h, ?_, ?_⟩
  · intro row hrow
    obtain ⟨c, -, hc⟩ := List.mem_map.mp hrow
    cases c <;> cases hc
  · intro c hc
    obtain ⟨d, hd, hof⟩ := List.mem_map.mp hc
    exact Task.eq_of_ofCall_eq_once hof ▸ hcalls d hd

theorem UpToDate.set (h : UpToDate entity id tasks s) {n : Nat} {task : Task}
    (hcoherent : CoherentAt entity id t)
    (hrow : (∃ row, .fill entity id row ∈ tasks) →
      t.tables.row? entity id = s.tables.row? entity id)
    (hfill : ∀ row, task = .fill entity id row → t.tables.row? entity id = some row)
    (honce : ∀ c, task ≠ .once c) : UpToDate entity id (tasks.set n task) t := by
  refine ⟨hcoherent, ?_, ?_⟩
  · intro row hmem
    rcases List.mem_or_eq_of_mem_set hmem with hmem | heq
    · rw [hrow ⟨row, hmem⟩]
      exact h.filling row hmem
    · exact hfill row heq.symm
  · intro c hmem
    rcases List.mem_or_eq_of_mem_set hmem with hmem | heq
    · exact h.own c hmem
    · exact absurd heq.symm (honce c)

theorem UpToDate.step (h : UpToDate entity id tasks s) {n : Nat} {task : Task}
    (htask : task ∈ tasks)
    (hwrites : (task.writes entity id s && tasks.any (Task.fills entity id)) = false) :
    UpToDate entity id (tasks.set n (task.step s).1) (task.step s).2 := by
  cases task with
  | ask e i =>
      have hkeep := Cache.row?_get s.cache e entity i id
      rw [Task.step]
      split
      · rename_i row cache hget
        rw [hget] at hkeep
        refine h.set ?_ (fun _ => rfl) ?_ ?_
        · rw [CoherentAt, hkeep]
          exact h.coherent
        · rintro r ⟨⟩
        · rintro c ⟨⟩
      · rename_i cache hget
        rw [hget] at hkeep
        refine h.set ?_ (fun _ => rfl) ?_ ?_
        · rw [CoherentAt, hkeep]
          exact h.coherent
        · rintro r ⟨⟩
        · rintro c ⟨⟩
  | read e i =>
      rw [Task.step]
      split
      · rename_i row hrow
        refine h.set h.coherent (fun _ => rfl) ?_ ?_
        · rintro r ⟨⟩
          exact hrow
        · rintro c ⟨⟩
      · refine h.set h.coherent (fun _ => rfl) ?_ ?_
        · rintro r ⟨⟩
        · rintro c ⟨⟩
  | fill e i row =>
      refine h.set ?_ (fun _ => rfl) ?_ ?_
      · intro r hr
        rw [Task.step, Cache.row?_put] at hr
        split at hr
        · rename_i hkey
          obtain ⟨rfl, rfl⟩ := hkey
          obtain rfl := Option.some.inj hr
          exact h.filling _ htask
        · exact h.coherent r hr
      · rintro r ⟨⟩
      · rintro c ⟨⟩
  | once c =>
      -- A request that writes the row is let in only while no look-up is about to put it.
      have hown := h.own c htask
      refine h.set (h.coherent.after (overwrites_eq_false hown)) ?_ ?_ ?_
      · rintro ⟨row, hrow⟩
        refine row?_after_of_writes (writes_eq_false hown ?_)
        have hany : tasks.any (Task.fills entity id) = true :=
          List.any_eq_true.mpr ⟨_, hrow, by simp [Task.fills]⟩
        rw [hany, Bool.and_true] at hwrites
        exact hwrites
      · rintro r ⟨⟩
      · rintro c ⟨⟩
  | found row =>
      refine h.set h.coherent (fun _ => rfl) ?_ ?_
      · rintro r ⟨⟩
      · rintro c ⟨⟩
  | done =>
      refine h.set h.coherent (fun _ => rfl) ?_ ?_
      · rintro r ⟨⟩
      · rintro c ⟨⟩

theorem UpToDate.interleave (schedule : List Nat) (h : UpToDate entity id tasks s)
    (hovertakes : overtakes entity id schedule tasks s = false) :
    UpToDate entity id (interleave schedule tasks s).1 (interleave schedule tasks s).2 := by
  induction schedule generalizing tasks s with
  | nil => exact h
  | cons n rest ih =>
      rw [Memory.interleave]
      rw [overtakes] at hovertakes
      cases htask : tasks[n]? with
      | none =>
          rw [htask] at hovertakes
          exact ih h hovertakes
      | some task =>
          rw [htask] at hovertakes
          obtain ⟨hwrites, hrest⟩ := Bool.or_eq_false_iff.mp hovertakes
          exact ih (h.step (List.mem_of_getElem? htask) hwrites) hrest

theorem coherentAt_interleave (calls : List Call) (schedule : List Nat) (s : Memory)
    (hcalls : ∀ c ∈ calls, c.isExternal = false) (entity : String) (id : Int64)
    (hstart : CoherentAt entity id s)
    (hovertakes : overtakes entity id schedule (calls.map Task.ofCall) s = false) :
    CoherentAt entity id (interleave schedule (calls.map Task.ofCall) s).2 :=
  ((upToDate_start hcalls hstart).interleave schedule hovertakes).coherent

def leaf (title : String) : Row := .ofList [("title", .text title), ("version", .int 0)]

def uncached : Memory := afterAll [.insert "page" (leaf "first"), .evictAll] {}

def lookUpAndUpdate : List Call :=
  [.find "page" 1, .update "page" 1 (some 0) (leaf "second"), .insert "page" (leaf "other")]

theorem coherentAt_interleave_of_late_reading :
    overtakes "page" 1 [0, 1, 0, 2, 0] (lookUpAndUpdate.map Task.ofCall) uncached = false ∧
      (interleave [0, 1, 0, 2, 0] (lookUpAndUpdate.map Task.ofCall) uncached).1.all Task.isOver ∧
      CoherentAt "page" 1
        (interleave [0, 1, 0, 2, 0] (lookUpAndUpdate.map Task.ofCall) uncached).2 := by
  have hovertakes :
      overtakes "page" 1 [0, 1, 0, 2, 0] (lookUpAndUpdate.map Task.ofCall) uncached = false := by
    decide +kernel
  refine ⟨hovertakes, by decide +kernel, ?_⟩
  refine coherentAt_interleave lookUpAndUpdate [0, 1, 0, 2, 0] uncached ?_ "page" 1 ?_ hovertakes
  · decide
  · rintro row ⟨⟩

theorem not_coherentAt_of_overtaken :
    let (tasks, after) := interleave [0, 0, 1, 0, 2] (lookUpAndUpdate.map Task.ofCall) uncached
    (∀ entity id, CoherentAt entity id uncached) ∧ tasks.all Task.isOver = true ∧
      ¬CoherentAt "page" 1 after ∧
      (find "page" 1 after).1 = .ok (some (versioned 1 0 (leaf "first"))) ∧
      after.tables.row? "page" 1 = some (versioned 1 1 (leaf "second")) := by
  refine ⟨?_, ?_, ?_, ?_, ?_⟩
  · rintro entity id row ⟨⟩
  · decide +kernel
  · intro hcoherent
    have hstale := hcoherent (versioned 1 0 (leaf "first")) (by decide +kernel)
    revert hstale
    decide +kernel
  · decide +kernel
  · decide +kernel

end RecordQuery.Memory
