import Mathlib.Data.List.Induction
import RecordQuery.Proofs.Store.Outcomes

namespace RecordQuery.Relational

open RecordQuery.Database

/-- What a call does to the cache entry of one key and to the transaction that it depends on: the
entry is put, with the row as the open transaction changed it or as it was before; it is dropped;
the transaction is committed, or undone. -/
inductive Event where
  | put (isChanged : Bool)
  | dropped
  | committed
  | undone
  deriving DecidableEq

section

variable (entity : String) (id : Int64)

def puts : Call → Relational → Bool
  | .find e i, s =>
      entity = e ∧ id = i ∧ s.cache.row? e i = none ∧ (find e i s).2.cache.contains e i
  | .insert e row, s => entity = e ∧
      (insert e row s).1.toOption.any (·.get? Row.idColumn = some (.int id))
  | .update e i expected row, s => entity = e ∧ id = i ∧ (update e i expected row s).1.isOk
  | _, _ => false

def drops : Call → Bool
  | .evict e i => entity = e ∧ id = i
  | .evictEntity e => entity = e
  | .evictAll => true
  | _ => false

def ending : Call → Event
  | .endUnit true => .committed
  | _ => .undone

def isChanged (session : Session) : Bool :=
  session.saved.any fun c => c.record? entity id != session.contents.record? entity id

def eventOf (c : Call) (s : Relational) : Option Event :=
  if puts entity id c s then some (.put (isChanged entity id (after c s).session))
  else if drops entity id c then some .dropped
  else if s.session.saved.isSome && (after c s).session.saved.isNone then some (ending c)
  else none

def eventsOf : List Call → Relational → List Event
  | [], _ => []
  | c :: rest, s => (eventOf entity id c s).toList ++ eventsOf rest (after c s)

end

/-- The entry was last put with a row that a transaction had changed, the transaction was then
undone, and the entry was not dropped since. -/
def Lost (events : List Event) : Prop :=
  ∃ before since, events = before ++ .put true :: .undone :: since ∧
    ∀ x ∈ since, x ≠ .dropped ∧ ∀ isChanged, x ≠ .put isChanged

inductive Standing where
  | absent
  | settled
  | pending
  | lost
  deriving DecidableEq

namespace Standing

def next : Standing → Event → Standing
  | _, .put isChanged => if isChanged then pending else settled
  | _, .dropped => absent
  | pending, .committed => settled
  | pending, .undone => lost
  | standing, _ => standing

theorem eq_pending {standing : Standing} {e : Event} (h : standing.next e = pending) :
    e = .put true := by
  cases e with
  | put isChanged => cases isChanged <;> [cases h; rfl]
  | dropped => cases h
  | committed => cases standing <;> cases h
  | undone => cases standing <;> cases h

theorem eq_lost {standing : Standing} {e : Event} (h : standing.next e = lost) :
    standing = pending ∧ e = .undone ∨ standing = lost ∧ (e = .committed ∨ e = .undone) := by
  cases e with
  | put isChanged => cases isChanged <;> cases h
  | dropped => cases h
  | committed =>
      cases standing with
      | lost => exact .inr ⟨rfl, .inl rfl⟩
      | _ => cases h
  | undone =>
      cases standing with
      | pending => exact .inl ⟨rfl, rfl⟩
      | lost => exact .inr ⟨rfl, .inr rfl⟩
      | _ => cases h

theorem foldl_lost {events : List Event}
    (h : ∀ x ∈ events, x ≠ .dropped ∧ ∀ isChanged, x ≠ .put isChanged) :
    events.foldl next lost = lost := by
  induction events with
  | nil => rfl
  | cons x rest ih =>
      obtain ⟨⟨hdropped, hput⟩, hrest⟩ := List.forall_mem_cons.mp h
      cases x with
      | put isChanged => exact absurd rfl (hput isChanged)
      | dropped => exact absurd rfl hdropped
      | committed => exact ih hrest
      | undone => exact ih hrest

theorem lost_iff {events : List Event} : Lost events ↔ events.foldl next absent = lost := by
  constructor
  · rintro ⟨before, since, rfl, hsince⟩
    rw [List.foldl_append]
    exact foldl_lost hsince
  intro h
  induction events using List.reverseRecOn with
  | nil => cases h
  | append_singleton events e ih =>
      rw [List.foldl_append, List.foldl_cons, List.foldl_nil] at h
      rcases eq_lost h with ⟨hpending, rfl⟩ | ⟨hlost, he⟩
      · rcases List.eq_nil_or_concat' events with rfl | ⟨before, x, rfl⟩
        · cases hpending
        · rw [List.foldl_append, List.foldl_cons, List.foldl_nil] at hpending
          obtain rfl := eq_pending hpending
          exact ⟨before, [], by simp, by simp⟩
      · obtain ⟨before, since, rfl, hsince⟩ := ih hlost
        refine ⟨before, since ++ [e], by simp, ?_⟩
        intro x hx
        rcases List.mem_append.mp hx with hx | hx
        · exact hsince x hx
        · obtain rfl := List.mem_singleton.mp hx
          rcases he with rfl | rfl <;> exact ⟨nofun, nofun⟩

end Standing

instance (events : List Event) : Decidable (Lost events) :=
  decidable_of_iff _ Standing.lost_iff.symm

def Shows (l : Layout) (id : Int64) (c : Contents) (row : Row) : Prop :=
  ∃ record, c.record? l.name id = some record ∧ l.Agrees ⟨id, record⟩ row

structure Tracked (l : Layout) (id : Int64) (standing : Standing) (s : Relational) : Prop where
  absent : standing = .absent → s.cache.row? l.name id = none
  current : standing ≠ .lost → ∀ row, s.cache.row? l.name id = some row →
    Shows l id s.session.contents row
  saved : standing = .settled → ∀ row, s.cache.row? l.name id = some row →
    ∀ c, s.session.saved = some c → Shows l id c row
  isOpen : standing = .pending → s.session.saved.isSome

inductive Happens (l : Layout) (id : Int64) (s t : Relational) : Option Event → Prop
  | stays (hcache : t.cache.row? l.name id = s.cache.row? l.name id)
      (hrecord : t.session.contents.record? l.name id = s.session.contents.record? l.name id)
      (hsaved : t.session.saved = s.session.saved) : Happens l id s t none
  | puts (row : Row) (hcache : t.cache.row? l.name id = some row)
      (hshows : Shows l id t.session.contents row) :
      Happens l id s t (some (.put (isChanged l.name id t.session)))
  | drops (hcache : t.cache.row? l.name id = none) : Happens l id s t (some .dropped)
  | begins (hcache : t.cache = s.cache) (hclosed : s.session.saved = none)
      (hsession : t.session = ⟨s.session.contents, some s.session.contents⟩) : Happens l id s t none
  | commits (hcache : t.cache = s.cache) (hsession : t.session = ⟨s.session.contents, none⟩) :
      Happens l id s t (some .committed)
  | undoes (hcache : t.cache = s.cache) (hopen : s.session.saved = some t.session.contents)
      (hclosed : t.session.saved = none) : Happens l id s t (some .undone)

variable {layouts : List Layout} {l : Layout} {id : Int64} {s t : Relational}

theorem tracked_absent (hcache : s.cache.row? l.name id = none) : Tracked l id .absent s := by
  refine ⟨fun _ => hcache, ?_, nofun, nofun⟩
  intro _ row hrow
  rw [hcache] at hrow
  cases hrow

theorem tracked_lost : Tracked l id .lost s :=
  ⟨nofun, fun hlost => absurd rfl hlost, nofun, nofun⟩

theorem tracked_settled (hclosed : s.session.saved = none)
    (hcurrent : ∀ row, s.cache.row? l.name id = some row → Shows l id s.session.contents row) :
    Tracked l id .settled s := by
  refine ⟨nofun, fun _ => hcurrent, ?_, nofun⟩
  intro _ _ _ c hc
  rw [hclosed] at hc
  cases hc

theorem Tracked.step {standing : Standing} {event : Option Event} (h : Tracked l id standing s)
    (hstep : Happens l id s t event) :
    Tracked l id (event.toList.foldl Standing.next standing) t := by
  cases hstep with
  | stays hcache hrecord hsaved =>
      refine ⟨fun hst => hcache.trans (h.absent hst), ?_, ?_, fun hst => hsaved ▸ h.isOpen hst⟩
      · intro hst row hrow
        rw [Shows, hrecord]
        exact h.current hst row (hcache ▸ hrow)
      · intro hst row hrow c hc
        exact h.saved hst row (hcache ▸ hrow) c (hsaved ▸ hc)
  | puts row hcache hshows =>
      have hcurrent : ∀ r, t.cache.row? l.name id = some r → Shows l id t.session.contents r := by
        intro r hr
        obtain rfl := Option.some.inj (hcache.symm.trans hr)
        exact hshows
      cases hchanged : isChanged l.name id t.session with
      | true =>
          obtain ⟨c, hc, -⟩ := (Option.any_eq_true _ _).mp hchanged
          exact ⟨nofun, fun _ => hcurrent, nofun, fun _ => hc ▸ rfl⟩
      | false =>
          refine ⟨nofun, fun _ => hcurrent, ?_, nofun⟩
          intro _ r hr c hc
          have hsame : c.record? l.name id = t.session.contents.record? l.name id := by
            simpa [isChanged, hc] using hchanged
          rw [Shows, hsame]
          exact hcurrent r hr
  | drops hcache => exact tracked_absent hcache
  | begins hcache hclosed hsession =>
      -- A pending entry needs an open transaction, and none is open before one begins.
      have hnot : standing ≠ .pending := fun hst => by simpa [hclosed] using h.isOpen hst
      refine ⟨fun hst => hcache ▸ h.absent hst, ?_, ?_, fun hst => absurd hst hnot⟩
      · intro hst row hrow
        rw [hsession]
        exact h.current hst row (hcache ▸ hrow)
      · intro hst row hrow c hc
        rw [hsession] at hc
        obtain rfl := Option.some.inj hc
        have hsettled : standing = .settled := hst
        exact h.current (hsettled ▸ nofun) row (hcache ▸ hrow)
  | commits hcache hsession =>
      have hclosed : t.session.saved = none := by rw [hsession]
      have hcurrent : standing ≠ .lost → ∀ row, t.cache.row? l.name id = some row →
          Shows l id t.session.contents row := by
        intro hst row hrow
        rw [hsession]
        exact h.current hst row (hcache ▸ hrow)
      cases standing with
      | absent => exact tracked_absent (hcache ▸ h.absent rfl)
      | settled => exact tracked_settled hclosed (hcurrent nofun)
      | pending => exact tracked_settled hclosed (hcurrent nofun)
      | lost => exact tracked_lost
  | undoes hcache hopen hclosed =>
      cases standing with
      | absent => exact tracked_absent (hcache ▸ h.absent rfl)
      | settled =>
          refine tracked_settled hclosed fun row hrow => ?_
          exact h.saved rfl row (hcache ▸ hrow) _ hopen
      | pending => exact tracked_lost
      | lost => exact tracked_lost

theorem eventOf_of_puts {entity : String} {c : Call} (h : puts entity id c s = true) :
    eventOf entity id c s = some (.put (isChanged entity id (after c s).session)) := by
  rw [eventOf, if_pos h]

theorem eventOf_quiet {entity : String} {c : Call} (hputs : puts entity id c s = false)
    (hdrops : drops entity id c = false) (hsaved : (after c s).session.saved = s.session.saved) :
    eventOf entity id c s = none := by
  rw [eventOf, hputs, hdrops, hsaved]
  cases s.session.saved <;> rfl

theorem eventOf_ended {entity : String} {c : Call} (hputs : puts entity id c s = false)
    (hdrops : drops entity id c = false) (hopen : s.session.saved.isSome = true)
    (hclosed : (after c s).session.saved = none) : eventOf entity id c s = some (ending c) := by
  rw [eventOf, hputs, hdrops, hopen, hclosed]
  rfl

theorem happens_find (hs : Schema layouts) (h : Sound layouts s) (hl : l ∈ layouts) (e : String)
    (i : Int64) :
    Happens l id s (after (.find e i) s) (eventOf l.name id (.find e i) s) := by
  have hsession : (find e i s).2.session = s.session := session_find e i s
  have hquiet : puts l.name id (.find e i) s = false →
      (find e i s).2.cache.row? l.name id = s.cache.row? l.name id →
      Happens l id s (after (.find e i) s) (eventOf l.name id (.find e i) s) := by
    intro hputs hcache
    have hevent : eventOf l.name id (.find e i) s = none :=
      eventOf_quiet hputs rfl (congrArg Session.saved hsession)
    rw [hevent]
    exact .stays hcache (by rw [after, hsession]) (congrArg Session.saved hsession)
  by_cases hkey : l.name = e ∧ id = i
  · obtain ⟨rfl, rfl⟩ := hkey
    cases hcached : s.cache.row? l.name id with
    | some row =>
        refine hquiet (by simp [puts, hcached]) ?_
        rw [find_of_cached hcached]
        exact Cache.row?_get ..
    | none =>
        rcases rowsOf_byId hs h.current hl id with ⟨-, hrows⟩ |
          ⟨record, row, hrecord, hrows, -, hagrees⟩
        · have hcache : (find l.name id s).2.cache.row? l.name id = s.cache.row? l.name id := by
            rw [find_of_nil hcached hrows]
            exact Cache.row?_get ..
          refine hquiet ?_ hcache
          simp [puts, Cache.contains, hcache, hcached]
        · have hcache : (find l.name id s).2.cache.row? l.name id = some row := by
            rw [find_of_cons hcached hrows]
            simp
          have hputs : puts l.name id (.find l.name id) s = true := by
            simp [puts, Cache.contains, hcache, hcached]
          rw [eventOf_of_puts hputs]
          refine .puts row hcache ?_
          rw [after, hsession]
          exact ⟨record, hrecord, hagrees⟩
  · refine hquiet ?_ (row?_cache_find hkey)
    simp only [puts, decide_eq_false_iff_not]
    exact fun heq => hkey ⟨heq.1, heq.2.1⟩

theorem happens_of_wrote (hs : Schema layouts) (hl : l ∈ layouts) {c : Call} {entity : String}
    {i : Int64} {row : Row} (hwrote : Wrote layouts entity i row s (after c s))
    (hputs : puts l.name id c s = decide (l.name = entity ∧ id = i))
    (hdrops : drops l.name id c = false) :
    Happens l id s (after c s) (eventOf l.name id c s) := by
  obtain ⟨l', hl', rfl, record, hwrites, hagrees⟩ := hwrote.record
  by_cases hkey : l.name = l'.name ∧ id = i
  · rw [eventOf_of_puts (hputs.trans (decide_eq_true hkey))]
    obtain ⟨hname, rfl⟩ := hkey
    obtain rfl : l = l' := hs.eq_of_folded hl hl' (congrArg folded hname)
    refine .puts row ?_ ⟨record, hwrites.here, hagrees⟩
    rw [hwrote.cache, Cache.row?_put, if_pos ⟨rfl, rfl⟩]
  · rw [eventOf_quiet (hputs.trans (decide_eq_false hkey)) hdrops hwrote.saved]
    refine .stays ?_ (hwrites.elsewhere l hl id hkey) hwrote.saved
    rw [hwrote.cache, Cache.row?_put, if_neg hkey]

theorem happens_of_failed {c : Call} (hfailed : Failed s (after c s))
    (hputs : puts l.name id c s = false) (hdrops : drops l.name id c = false)
    (hending : ending c = .undone) :
    Happens l id s (after c s) (eventOf l.name id c s) := by
  have hcache : (after c s).cache.row? l.name id = s.cache.row? l.name id := by
    rw [hfailed.cache]
  have hstays : (after c s).session = s.session →
      Happens l id s (after c s) (eventOf l.name id c s) := by
    intro hsame
    rw [eventOf_quiet hputs hdrops (congrArg Session.saved hsame)]
    exact .stays hcache (by rw [hsame]) (congrArg Session.saved hsame)
  rcases hfailed.session with hsame | hundone
  · exact hstays hsame
  · cases hsaved : s.session.saved with
    | none =>
        refine hstays ?_
        rw [hundone, hsaved, Option.getD_none, ← hsaved]
    | some contents =>
        rw [hsaved] at hundone
        rw [eventOf_ended hputs hdrops (hsaved ▸ rfl) (congrArg Session.saved hundone), hending]
        refine .undoes hfailed.cache ?_ (congrArg Session.saved hundone)
        rw [hsaved, hundone]
        rfl

theorem happens_insert (hs : Schema layouts) (h : Sound layouts s) (hl : l ∈ layouts)
    {entity : String} {row : Row} (hcall : (Call.insert entity row).Keeps layouts) :
    Happens l id s (after (.insert entity row) s) (eventOf l.name id (.insert entity row) s) := by
  rcases insert_cases hs h hcall with ⟨n, hanswer, hwrote⟩ | ⟨e, hanswer, hfailed⟩
  · refine happens_of_wrote hs hl hwrote ?_ rfl
    simp [puts, hanswer, Except.toOption, eq_comm]
  · refine happens_of_failed hfailed ?_ rfl rfl
    simp [puts, hanswer, Except.toOption]

theorem happens_update (hs : Schema layouts) (h : Sound layouts s) (hl : l ∈ layouts)
    {entity : String} {i : Int64} {expected : Option Int64} {row : Row}
    (hcall : (Call.update entity i expected row).Keeps layouts) :
    Happens l id s (after (.update entity i expected row) s)
      (eventOf l.name id (.update entity i expected row) s) := by
  rcases update_cases hs h hcall with ⟨hanswer, hwrote⟩ | ⟨e, hanswer, hfailed⟩
  · refine happens_of_wrote hs hl hwrote ?_ rfl
    simp [puts, hanswer, Except.isOk, Except.toBool]
  · refine happens_of_failed hfailed ?_ rfl rfl
    simp [puts, hanswer, Except.isOk, Except.toBool]

theorem happens_of_evicted {c : Call} {cache : Cache}
    (hafter : after c s = { s with cache := cache }) (hputs : puts l.name id c s = false)
    (hcache : cache.row? l.name id = if drops l.name id c then none else s.cache.row? l.name id) :
    Happens l id s (after c s) (eventOf l.name id c s) := by
  cases hdrops : drops l.name id c with
  | true =>
      have hevent : eventOf l.name id c s = some .dropped := by
        rw [eventOf, hputs, hdrops]
        rfl
      rw [hdrops, if_pos rfl] at hcache
      rw [hevent]
      refine .drops ?_
      rw [hafter, hcache]
  | false =>
      rw [hdrops] at hcache
      rw [eventOf_quiet hputs hdrops (by rw [hafter])]
      refine .stays ?_ ?_ ?_ <;> rw [hafter]
      exact hcache

theorem happens_begin (s : Relational) :
    Happens l id s (after .beginUnit s) (eventOf l.name id .beginUnit s) := by
  rcases begin_cases s with hsame | ⟨hclosed, hcache, hsession⟩
  · rw [eventOf_quiet rfl rfl (by rw [hsame]), hsame]
    exact .stays rfl rfl rfl
  · have hevent : eventOf l.name id .beginUnit s = none := by
      rw [eventOf, hclosed]
      rfl
    rw [hevent]
    exact .begins hcache hclosed hsession

theorem happens_end (commit : Bool) (s : Relational) :
    Happens l id s (after (.endUnit commit) s) (eventOf l.name id (.endUnit commit) s) := by
  obtain ⟨hcache, hsame | ⟨contents, hopen, hsession⟩⟩ := end_cases commit s
  · rw [eventOf_quiet rfl rfl (congrArg Session.saved hsame)]
    exact .stays (congrArg (·.row? l.name id) hcache) (by rw [hsame]) (congrArg Session.saved hsame)
  · have hclosed := congrArg Session.saved hsession
    rw [eventOf_ended rfl rfl (hopen ▸ rfl) hclosed]
    cases commit with
    | true => exact .commits hcache hsession
    | false =>
        refine .undoes hcache ?_ hclosed
        rw [hopen, hsession]
        rfl

theorem happens (hs : Schema layouts) (h : Sound layouts s) (hl : l ∈ layouts) {c : Call}
    (hcall : c.Keeps layouts) : Happens l id s (after c s) (eventOf l.name id c s) := by
  cases c with
  | find entity i => exact happens_find hs h hl entity i
  | insert entity row => exact happens_insert hs h hl hcall
  | update entity i expected row => exact happens_update hs h hl hcall
  | evictAll => exact happens_of_evicted rfl rfl rfl
  | evictEntity entity =>
      refine happens_of_evicted rfl rfl ((Cache.row?_evictEntity ..).trans ?_)
      simp [drops, Store.cache]
  | evict entity i =>
      refine happens_of_evicted rfl rfl ((Cache.row?_evict ..).trans ?_)
      simp [drops, Store.cache]
  | beginUnit => exact happens_begin s
  | endUnit commit => exact happens_end commit s

theorem Tracked.run (hs : Schema layouts) (hl : l ∈ layouts) (calls : List Call)
    (hcalls : ∀ c ∈ calls, c.Keeps layouts) {standing : Standing} (hsound : Sound layouts s)
    (h : Tracked l id standing s) :
    Tracked l id ((eventsOf l.name id calls s).foldl Standing.next standing)
      (afterAll calls s) := by
  induction calls generalizing s standing with
  | nil => exact h
  | cons c rest ih =>
      obtain ⟨hcall, hrest⟩ := List.forall_mem_cons.mp hcalls
      rw [eventsOf, List.foldl_append]
      exact ih hrest (sound_after hs hsound hcall) (h.step (happens hs hsound hl hcall))

/-- An answer to a look-up by id that agrees with the table: no row if the table has none, and else
one whose columns are read as the cells of the row in the table. -/
def Faithful (l : Layout) (id : Int64) (c : Contents) : Except StoreError (Option Row) → Prop
  | .error _ => False
  | .ok none => c.record? l.name id = none
  | .ok (some row) => ∃ record, c.record? l.name id = some record ∧
      ∀ name v, row.get? name = some v → name ∈ l.names ∧
        ∃ w, (cellOf l ⟨id, record⟩ (.field name)).value? = .ok w ∧ v.ReadsAs w

theorem faithful_of_shows {c : Contents} {row : Row} (h : Shows l id c row) :
    Faithful l id c (.ok (some row)) := by
  obtain ⟨record, hrecord, hagrees⟩ := h
  refine ⟨record, hrecord, ?_⟩
  intro name v hv
  obtain ⟨hname, htells, hcell⟩ := hagrees name v hv
  exact ⟨hname, _, hcell, Value.readsAs_storageForm htells⟩

theorem Tracked.find {standing : Standing} (h : Tracked l id standing s) (hs : Schema layouts)
    (hsound : Sound layouts s) (hl : l ∈ layouts) (hstanding : standing ≠ .lost) :
    Faithful l id s.session.contents (find l.name id s).1 := by
  cases hcached : s.cache.row? l.name id with
  | some row =>
      rw [find_of_cached hcached]
      exact faithful_of_shows (h.current hstanding row hcached)
  | none =>
      rcases rowsOf_byId hs hsound.current hl id with ⟨hrecord, hrows⟩ |
        ⟨record, row, hrecord, hrows, -, hagrees⟩
      · rw [find_of_nil hcached hrows]
        exact hrecord
      · rw [find_of_cons hcached hrows]
        exact faithful_of_shows ⟨record, hrecord, hagrees⟩

def opened (c : Contents) : Relational := { session := ⟨c, none⟩ }

theorem find_agrees (hs : Schema layouts) {c : Contents} (hfits : c.Fits layouts)
    (calls : List Call) (hcalls : ∀ call ∈ calls, call.Keeps layouts) (hl : l ∈ layouts)
    (id : Int64)
    (hlost : ¬Lost (eventsOf l.name id calls (opened c))) :
    Faithful l id (afterAll calls (opened c)).session.contents
        (find l.name id (afterAll calls (opened c))).1 ∧
      ((∀ call ∈ calls, call.GivesAll layouts) → ∀ row,
        (find l.name id (afterAll calls (opened c))).1 = .ok (some row) → l.IsWhole row) := by
  have hsound : Sound layouts (opened c) := ⟨hfits, nofun⟩
  have hafter := sound_afterAll hs hcalls hsound
  refine ⟨?_, ?_⟩
  · have hstart : Tracked l id .absent (opened c) := tracked_absent rfl
    have htracked := hstart.run hs hl calls hcalls hsound
    exact htracked.find hs hafter hl (mt Standing.lost_iff.mpr hlost)
  · intro hall row hfound
    exact (AllWhole.run hs hl calls hcalls hall hsound nofun).find hs hafter hl hfound

def notes : Layout where
  name := "note"
  columns := [
    { name := "title", affinity := .text },
    { name := "version", affinity := .integer, initial := .int 0 }]

def titled (title : String) : Row := .ofList [("title", .text title), ("version", .int 0)]

theorem schema_notes : Schema [notes] := by
  have hproper : notes.Proper := by
    refine ⟨by decide, rfl, by decide, by decide, by decide, ?_⟩
    intro c hc
    rcases List.mem_cons.mp hc with rfl | hc
    · exact ⟨rfl, ⟨_, rfl⟩, fun _ => .inl rfl⟩
    · obtain rfl := List.mem_singleton.mp hc
      exact ⟨rfl, ⟨_, rfl⟩, fun _ => .inr ⟨0, rfl⟩⟩
  refine ⟨?_, by decide, by decide⟩
  intro l hl
  obtain rfl := List.mem_singleton.mp hl
  exact hproper

def noNotes : Contents := .ofLayouts [notes]

theorem fits_noNotes : noNotes.Fits [notes] := fits_ofLayouts schema_notes []

theorem takes_titled {title : String} (htitle : clip title = title) :
    ∀ l ∈ [notes], ∀ name v, (bare (titled title)).get? name = some v → l.Takes name v := by
  intro l hl name v hv
  obtain rfl := List.mem_singleton.mp hl
  obtain ⟨hrow, -, hversion⟩ := get?_of_bare hv
  have hne : name ≠ "version" := hversion
  have htitled : (if name = "title" then some (Value.text title) else none) = some v := by
    simpa [titled, Keyed.ofList, hne] using hrow
  split at htitled
  · rename_i hname
    rw [hname, ← Option.some.inj htitled]
    exact ⟨rfl, trivial, congrArg (fun s => Except.ok (Value.text s)) htitle⟩
  · cases htitled

theorem calls_notes : Calls [notes] "note" := by
  unfold Calls
  decide

theorem keeps_insert_first : (Call.insert "note" (titled "first")).Keeps [notes] :=
  ⟨calls_notes, fun l hl _ => takes_titled (by decide) l hl⟩

def undoneChange : List Call := [
  .insert "note" (titled "first"), .beginUnit, .update "note" 1 (some 0) (titled "second"),
  .endUnit false, .evict "note" 1]

theorem keeps_undoneChange : ∀ c ∈ undoneChange, c.Keeps [notes] := by
  have hsecond : (Call.update "note" 1 (some 0) (titled "second")).Keeps [notes] :=
    ⟨calls_notes, fun l hl _ => takes_titled (by decide) l hl, by decide, nofun⟩
  intro c hc
  simp only [undoneChange, List.mem_cons, List.not_mem_nil, or_false] at hc
  rcases hc with rfl | rfl | rfl | rfl | rfl
  · exact keeps_insert_first
  · trivial
  · exact hsecond
  · trivial
  · trivial

theorem givesAll_undoneChange : ∀ c ∈ undoneChange, c.GivesAll [notes] := by
  intro c hc
  simp only [undoneChange, List.mem_cons, List.not_mem_nil, or_false] at hc
  rcases hc with rfl | rfl | rfl | rfl | rfl
  · unfold Call.GivesAll
    decide
  · trivial
  · unfold Call.GivesAll
    decide
  · trivial
  · trivial

theorem find_agrees_of_undoneChange :
    Schema [notes] ∧ noNotes.Fits [notes] ∧ (∀ c ∈ undoneChange, c.Keeps [notes]) ∧
      notes ∈ [notes] ∧ ¬Lost (eventsOf notes.name 1 undoneChange (opened noNotes)) ∧
      (∀ c ∈ undoneChange, c.GivesAll [notes]) ∧
      Faithful notes 1 (afterAll undoneChange (opened noNotes)).session.contents
        (find "note" 1 (afterAll undoneChange (opened noNotes))).1 ∧
      (find "note" 1 (afterAll undoneChange (opened noNotes))).1.toOption =
        some (some ((titled "first").put "id" (.int 1))) ∧
      ∀ row, (find "note" 1 (afterAll undoneChange (opened noNotes))).1 = .ok (some row) →
        notes.IsWhole row := by
  have hlost : ¬Lost (eventsOf notes.name 1 undoneChange (opened noNotes)) := by decide +kernel
  have hfound : (find "note" 1 (afterAll undoneChange (opened noNotes))).1.toOption =
      some (some ((titled "first").put "id" (.int 1))) := by decide +kernel
  have hnotes : notes ∈ [notes] := List.mem_singleton_self _
  obtain ⟨hfaithful, hwhole⟩ :=
    find_agrees schema_notes fits_noNotes undoneChange keeps_undoneChange hnotes 1 hlost
  exact ⟨schema_notes, fits_noNotes, keeps_undoneChange, hnotes, hlost, givesAll_undoneChange,
    hfaithful, hfound, hwhole givesAll_undoneChange⟩

def undoneInsertion : List Call := [.beginUnit, .insert "note" (titled "first"), .endUnit false]

theorem not_faithful_of_undoneInsertion :
    Schema [notes] ∧ (∀ c ∈ undoneInsertion, c.Keeps [notes]) ∧
      (afterAll undoneInsertion (opened noNotes)).session.contents.record? notes.name 1 = none ∧
      (find "note" 1 (afterAll undoneInsertion (opened noNotes))).1.toOption =
        some (some ((titled "first").put "id" (.int 1))) ∧
      ¬Faithful notes 1 (afterAll undoneInsertion (opened noNotes)).session.contents
        (find "note" 1 (afterAll undoneInsertion (opened noNotes))).1 := by
  have hkeeps : ∀ c ∈ undoneInsertion, c.Keeps [notes] := by
    intro c hc
    simp only [undoneInsertion, List.mem_cons, List.not_mem_nil, or_false] at hc
    rcases hc with rfl | rfl | rfl
    · trivial
    · exact keeps_insert_first
    · trivial
  have hgone : (afterAll undoneInsertion (opened noNotes)).session.contents.record? notes.name 1 =
      none := by decide +kernel
  have hfound : (find "note" 1 (afterAll undoneInsertion (opened noNotes))).1.toOption =
      some (some ((titled "first").put "id" (.int 1))) := by decide +kernel
  refine ⟨schema_notes, hkeeps, hgone, hfound, ?_⟩
  intro hfaithful
  unfold Faithful at hfaithful
  split at hfaithful
  · exact hfaithful
  · rename_i hnone
    rw [hnone] at hfound
    cases hfound
  · obtain ⟨record, hrecord, -⟩ := hfaithful
    rw [hgone] at hrecord
    cases hrecord

end RecordQuery.Relational
