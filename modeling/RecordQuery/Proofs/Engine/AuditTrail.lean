import RecordQuery.Proofs.Engine.Load
import RecordQuery.Proofs.Engine.Stamp

namespace RecordQuery

namespace Engine

open RecordQuery.Memory

structure Saving where
  id : Int64
  inserted : Bool
  time : Time.Instant
  user : Option Int64
  deriving DecidableEq

structure Work (E : Type) where
  engine : Engine Memory
  obtained : List E := []
  savings : List Saving := []

inductive Step (E : Type) where
  | save (a : E) (user : Option Int64) (flush : Bool)
  | load (id : Int64) (clear : Bool)
  | list (first limit : Int64) (make : PlanMaker)
  | clock (now : Time.Instant)
  | other (c : Call)

namespace Work

variable {E : Type} [Audited E]

def after (w : Work E) : Step E → Work E
  | .save a user flush =>
      let r := w.engine.saveAudited a user flush
      let saving (saved : E) : Saving :=
        ⟨Entity.id saved, Entity.isTransient a, w.engine.clock, user⟩
      ⟨r.2, r.1.toOption.toList ++ w.obtained, w.savings ++ (r.1.toOption.map saving).toList⟩
  | .load id clear =>
      let r := w.engine.load id clear
      { w with engine := r.2, obtained := r.1.toOption.join.toList ++ w.obtained }
  | .list first limit make =>
      { w with obtained := (w.engine.list first limit make).toOption.getD [] ++ w.obtained }
  | .clock now => { w with engine := { w.engine with clock := now } }
  | .other c => { w with engine := { w.engine with store := Memory.after c w.engine.store } }

structure Copies (a b : E) : Prop where
  id : Entity.id a = Entity.id b
  version : Entity.version a = Entity.version b
  created : (Audited.audit a).created = (Audited.audit b).created
  creator : (Audited.audit a).creator = (Audited.audit b).creator

def Inserted (w : Work E) (id : Int64) : Prop := ∃ s ∈ w.savings, s.id = id ∧ s.inserted = true

/-- New values are saved, other values only as copies of what was obtained before, and nobody else
writes a row that was inserted here. -/
def Allows (w : Work E) : Step E → Prop
  | .save a _ _ => Entity.isTransient a = false → ∃ b ∈ w.obtained, Copies a b
  | .other c => ∀ id, w.Inserted id → writes (Entity.name E) id c w.engine.store = false
  | _ => True

inductive Runs : Work E → Prop where
  | start {e : Engine Memory} : Reachable e.store → Runs { engine := e }
  | step {w : Work E} (s : Step E) : Runs w → w.Allows s → Runs (w.after s)

def savingsOf (w : Work E) (id : Int64) : List Saving := w.savings.filter (·.id = id)

structure Tells (first : Saving) (rest : List Saving) (x : Audit) : Prop where
  created : x.created = first.time
  creator : x.creator = first.user
  edited : x.edited = (rest.getLastD first).time
  editor : x.editor = (rest.getLastD first).user
  version : x.version.toInt = rest.length

section

variable {w : Work E} {a : E} {user : Option Int64} {flush : Bool} {e : Engine Memory}

theorem after_of_saved {saved : E} (h : w.engine.saveAudited a user flush = (.ok saved, e)) :
    w.after (.save a user flush) = ⟨e, saved :: w.obtained,
      w.savings ++ [⟨Entity.id saved, Entity.isTransient a, w.engine.clock, user⟩]⟩ := by
  simp [after, h, Except.toOption]

theorem after_of_refused {fault : EngineError}
    (h : w.engine.saveAudited a user flush = (.error fault, w.engine)) :
    w.after (.save a user flush) = w := by
  simp [after, h, Except.toOption]

end

structure Trail (w : Work E) (id : Int64) (first : Saving) (rest : List Saving) : Prop where
  savings : w.savingsOf id = first :: rest
  inserted : first.inserted = true
  merged : ∀ s ∈ rest, s.inserted = false
  stored : ∃ row x, w.engine.store.tables.row? (Entity.name E) id = some row ∧
    Audit.ofRow row = .ok x ∧ Tells first rest x
  coherent : CoherentAt (Entity.name E) id w.engine.store
  copies : ∀ a ∈ w.obtained, Entity.id a = id →
    (Audited.audit a).created = first.time ∧ (Audited.audit a).creator = first.user

structure Sound (w : Work E) : Prop where
  reachable : Reachable w.engine.store
  obtained : ∀ a ∈ w.obtained, Entity.id a ≤ w.engine.store.lastId
  savings : ∀ s ∈ w.savings, s.id ≤ w.engine.store.lastId
  trails : ∀ id, w.Inserted id → ∃ first rest, w.Trail id first rest

variable {w v : Work E} {id : Int64} {first : Saving} {rest : List Saving}

theorem Sound.start {e : Engine Memory} (h : Reachable e.store) :
    Sound ({ engine := e } : Work E) :=
  ⟨h, nofun, nofun, fun _ ⟨_, hs, _⟩ => nomatch hs⟩

theorem savingsOf_eq_nil (h : Sound w) (hid : w.engine.store.lastId < id) :
    w.savingsOf id = [] := by
  refine List.filter_eq_nil_iff.mpr fun s hs hkey => ?_
  rw [decide_eq_true_eq] at hkey
  exact Int64.not_le.mpr hid (hkey ▸ h.savings s hs)

variable [LawfulAudit E]

theorem Trail.copy (h : Trail w id first rest) {a : E} (ha : Holds id a w.engine.store) :
    (Audited.audit a).created = first.time ∧ (Audited.audit a).creator = first.user := by
  obtain ⟨row, x, hrow, hread, htells⟩ := h.stored
  obtain ⟨r, hr, ha⟩ := ha
  obtain rfl := Option.some.inj (hrow.symm.trans hr)
  obtain rfl := Except.ok.inj ((LawfulAudit.audit_of_row ha).symm.trans hread)
  exact ⟨htells.created, htells.creator⟩

theorem Trail.kept (h : Trail w id first rest) (hsavings : v.savingsOf id = w.savingsOf id)
    (hrow : v.engine.store.tables.row? (Entity.name E) id =
      w.engine.store.tables.row? (Entity.name E) id)
    (hcoherent : CoherentAt (Entity.name E) id v.engine.store)
    (hcopies : ∀ a ∈ v.obtained, Entity.id a = id →
      a ∈ w.obtained ∨ Holds id a w.engine.store) : Trail v id first rest := by
  refine ⟨hsavings.trans h.savings, h.inserted, h.merged, ?_, hcoherent, ?_⟩
  · rw [hrow]
    exact h.stored
  · intro a ha hid
    rcases hcopies a ha hid with ha | ha
    · exact h.copies a ha hid
    · exact h.copy ha

theorem Sound.kept (h : Sound w) (hreach : Reachable v.engine.store)
    (htables : v.engine.store.tables = w.engine.store.tables)
    (hlast : v.engine.store.lastId = w.engine.store.lastId) (hsavings : v.savings = w.savings)
    (hcoherent : ∀ id, CoherentAt (Entity.name E) id w.engine.store →
      CoherentAt (Entity.name E) id v.engine.store)
    (hcopies : ∀ a ∈ v.obtained, a ∈ w.obtained ∨
      (w.engine.store.tables.row? (Entity.name E) (Entity.id a)).isSome ∧
        (CoherentAt (Entity.name E) (Entity.id a) w.engine.store →
          Holds (Entity.id a) a w.engine.store)) : Sound v := by
  refine ⟨hreach, ?_, ?_, ?_⟩
  · intro a ha
    rw [hlast]
    rcases hcopies a ha with ha | ⟨hrow, -⟩
    · exact h.obtained a ha
    · obtain ⟨row, hrow⟩ := Option.isSome_iff_exists.mp hrow
      exact h.reachable.bounded.below hrow
  · rw [hsavings, hlast]
    exact h.savings
  · intro id hinserted
    rw [Inserted, hsavings] at hinserted
    obtain ⟨first, rest, htrail⟩ := h.trails id hinserted
    refine ⟨first, rest, htrail.kept (by rw [savingsOf, savingsOf, hsavings]) (by rw [htables])
      (hcoherent id htrail.coherent) ?_⟩
    rintro a ha rfl
    exact (hcopies a ha).imp_right fun hread => hread.2 htrail.coherent

theorem Sound.list (h : Sound w) (first limit : Int64) (make : PlanMaker) :
    Sound (w.after (.list first limit make)) := by
  refine h.kept h.reachable rfl rfl rfl (fun _ hcoherent => hcoherent) fun a ha => ?_
  refine (List.mem_append.mp ha).symm.imp_right fun ha => ?_
  cases hlist : w.engine.list (E := E) first limit make with
  | error fault => simp [hlist, Except.toOption] at ha
  | ok answers =>
      rw [hlist] at ha
      obtain ⟨id, row, hrow, hread⟩ := holds_of_list hlist ha
      obtain ⟨calls, hcalls⟩ := h.reachable.exists_calls
      have hid : Row.int row Row.idColumn = .ok id := by
        rw [hcalls] at hrow
        exact idsRead_afterAll calls idsRead_start (Entity.name E) id row hrow
      obtain rfl := Except.ok.inj (hid.symm.trans (LawfulReading.id_of_row hread))
      exact ⟨Option.isSome_of_eq_some hrow, fun _ => ⟨row, hrow, hread⟩⟩

theorem Sound.load (h : Sound w) (id : Int64) (clear : Bool) :
    Sound (w.after (.load id clear)) := by
  have hload := load_eq (E := E) id clear w.engine
  have hstore : (w.after (.load id clear)).engine.store =
      afterAll (loading (Entity.name E) id clear) w.engine.store :=
    congrArg (·.2.store) hload
  have hsilent : ∀ c ∈ loading (Entity.name E) id clear, c.isSilent = true := by
    cases clear <;> simp [loading, Call.isSilent]
  obtain ⟨hreach, htables, hlast⟩ := h.reachable.silent hsilent
  obtain ⟨calls, hcalls⟩ := h.reachable.exists_calls
  refine h.kept (hstore ▸ hreach) (hstore ▸ htables) (hstore ▸ hlast) rfl ?_ fun a ha => ?_
  · intro i hcoherent
    rw [hstore]
    cases clear with
    | false => exact hcoherent.after rfl
    | true => exact (hcoherent.after rfl).after rfl
  · refine (List.mem_append.mp ha).symm.imp_right fun ha => ?_
    have hanswer : (w.engine.load id clear).1 = .ok (some a) := by
      cases hcase : (w.engine.load (E := E) id clear).1 with
      | error fault => simp [hcase, Except.toOption] at ha
      | ok found => simpa [hcase, Except.toOption] using ha
    obtain rfl := id_of_load hcalls hanswer
    obtain ⟨row, hfound, hread⟩ := found_of_load hanswer
    obtain ⟨hrow, hagreed⟩ := row?_of_found hcalls hfound
    exact ⟨hrow, fun hcoherent => ⟨row, hagreed hcoherent, hread⟩⟩

theorem Sound.saved (h : Sound w) {saved : E} {s : Saving} (hid : s.id = Entity.id saved)
    (hobtained : v.obtained = saved :: w.obtained) (hsavings : v.savings = w.savings ++ [s])
    (hpersisted : Persisted saved w.engine.store v.engine.store)
    (hreach : Reachable v.engine.store)
    (hlast : w.engine.store.lastId ≤ v.engine.store.lastId)
    (hnew : v.Inserted s.id → ∃ first rest, v.savingsOf s.id = first :: rest ∧
      first.inserted = true ∧ (∀ r ∈ rest, r.inserted = false) ∧
      Tells first rest (Audited.audit saved) ∧ ∀ a ∈ w.obtained, Entity.id a = s.id →
        (Audited.audit a).created = first.time ∧ (Audited.audit a).creator = first.user) :
    Sound v := by
  obtain ⟨row, hread, hrow, hcached⟩ := hpersisted.held
  rw [← hid] at hrow hcached
  have hbelow : s.id ≤ v.engine.store.lastId := hreach.bounded.below hrow
  refine ⟨hreach, ?_, ?_, ?_⟩
  · rw [hobtained]
    exact List.forall_mem_cons.mpr
      ⟨hid ▸ hbelow, fun a ha => Int64.le_trans (h.obtained a ha) hlast⟩
  · rw [hsavings]
    exact List.forall_mem_append.mpr
      ⟨fun r hr => Int64.le_trans (h.savings r hr) hlast, by simpa using hbelow⟩
  · intro id hinserted
    by_cases hsame : id = s.id
    · subst hsame
      obtain ⟨first, rest, hlist, hfirst, hrest, htells, hcopies⟩ := hnew hinserted
      refine ⟨first, rest, hlist, hfirst, hrest, ⟨row, _, hrow, LawfulAudit.audit_of_row hread,
        htells⟩, ?_, ?_⟩
      · intro r hr
        exact hrow.trans (hcached.symm.trans hr)
      · rw [hobtained]
        exact List.forall_mem_cons.mpr ⟨fun _ => ⟨htells.created, htells.creator⟩, hcopies⟩
    · have hother : w.Inserted id := by
        obtain ⟨r, hr, hkey, hmark⟩ := hinserted
        rw [hsavings] at hr
        rcases List.mem_append.mp hr with hr | hr
        · exact ⟨r, hr, hkey, hmark⟩
        · exact absurd (hkey.symm.trans (congrArg Saving.id (List.mem_singleton.mp hr))) hsame
      obtain ⟨first, rest, htrail⟩ := h.trails id hother
      obtain ⟨htables, hcache⟩ := hpersisted.others (Entity.name E) id (fun hkey =>
        hsame (hkey.2.trans hid.symm))
      refine ⟨first, rest, htrail.kept ?_ htables ?_ ?_⟩
      · rw [savingsOf, hsavings, List.filter_append]
        simp [savingsOf, Ne.symm hsame]
      · intro r hr
        rw [htables]
        exact htrail.coherent r (hcache.symm.trans hr)
      · rw [hobtained]
        exact List.forall_mem_cons.mpr
          ⟨fun hkey => absurd (hkey.symm.trans hid.symm) hsame, fun a ha _ => .inl ha⟩

theorem Sound.insert (h : Sound w) {a : E} (hid : Entity.id a = 0) (user : Option Int64)
    (flush : Bool) : Sound (w.after (.save a user flush)) := by
  rcases saveAudited_transient user flush hid h.reachable with hsave |
    ⟨saved, t, hroom, hsave, haudit, hpersisted, hreach, hlast⟩
  · rw [after_of_refused hsave]
    exact h
  have hnumber : Entity.id saved = w.engine.store.lastId + 1 := by
    rw [LawfulAudit.id_audit, haudit]
  have hlt : w.engine.store.lastId < Entity.id saved := hnumber ▸ Integer.lt_succ hroom
  have htransient : Entity.isTransient a = true := by simpa [Entity.isTransient] using hid
  let s : Saving := ⟨Entity.id saved, true, w.engine.clock, user⟩
  rw [after_of_saved hsave, htransient]
  refine h.saved (s := s) rfl rfl rfl hpersisted hreach hlast fun _ => ?_
  refine ⟨s, [], ?_, rfl, List.forall_mem_nil _, ?_, ?_⟩
  · have hnone := savingsOf_eq_nil h hlt
    rw [savingsOf] at hnone ⊢
    rw [List.filter_append, hnone]
    simp [s]
  · rw [haudit, audit_stamp, if_pos htransient]
    exact ⟨rfl, rfl, rfl, rfl, rfl⟩
  · intro b hb hkey
    exact absurd (h.obtained b hb) (Int64.not_le.mpr (hkey ▸ hlt))

theorem Sound.merge (h : Sound w) {a : E} (hid : Entity.id a ≠ 0) {b : E} (hb : b ∈ w.obtained)
    (hcopy : Copies a b) (user : Option Int64) (flush : Bool) :
    Sound (w.after (.save a user flush)) := by
  rcases saveAudited_stored user flush hid h.reachable with ⟨fault, hsave⟩ |
    ⟨version, saved, t, hversion, hroom, hcurrent, hsave, haudit, hpersisted, hreach, hlast⟩
  · rw [after_of_refused hsave]
    exact h
  · have hkey : Entity.id saved = Entity.id a := by rw [LawfulAudit.id_audit, haudit]
    have htransient : Entity.isTransient a = false := by simpa [Entity.isTransient] using hid
    let s : Saving := ⟨Entity.id saved, false, w.engine.clock, user⟩
    rw [after_of_saved hsave, htransient]
    refine h.saved (s := s) rfl rfl rfl hpersisted hreach hlast fun hinserted => ?_
    have hearlier : w.Inserted (Entity.id a) := by
      obtain ⟨r, hr, hid, hmark⟩ := hinserted
      rcases List.mem_append.mp hr with hr | hr
      · exact ⟨r, hr, hid.trans hkey, hmark⟩
      · rw [List.mem_singleton.mp hr] at hmark
        cases hmark
    obtain ⟨first, rest, htrail⟩ := h.trails _ hearlier
    have hsavings := htrail.savings
    obtain ⟨row, x, hrow, hread, htells⟩ := htrail.stored
    obtain ⟨hcreated, hcreator⟩ := htrail.copies b hb hcopy.id.symm
    have hnext : version = x.version := by
      have hint := Row.int?_of_int (Audit.reads_of_ofRow hread).version
      rw [versionAt_of_row? hrow, hint] at hcurrent
      exact (Option.some.inj (Except.ok.inj hcurrent)).symm
    refine ⟨first, rest ++ [s], ?_, htrail.inserted, ?_, ?_, ?_⟩
    · have hsame : s.id = Entity.id a := hkey
      rw [savingsOf] at hsavings ⊢
      rw [List.filter_append, hsame, hsavings]
      simp [s, hkey]
    · exact List.forall_mem_append.mpr ⟨htrail.merged, by simp [s]⟩
    · rw [haudit, audit_stamp, htransient]
      refine ⟨hcopy.created.trans hcreated, hcopy.creator.trans hcreator, ?_, ?_, ?_⟩
      · rw [List.getLastD_concat]
      · rw [List.getLastD_concat]
      · change (version + 1).toInt = _
        rw [Integer.toInt_succ hroom, hnext, htells.version, List.length_append]
        rfl
    · intro c hc hsame
      exact htrail.copies c hc (hsame.trans hkey)

theorem Sound.save (h : Sound w) (a : E) (user : Option Int64) (flush : Bool)
    (hallowed : w.Allows (.save a user flush)) : Sound (w.after (.save a user flush)) := by
  by_cases hid : Entity.id a = 0
  · exact h.insert hid user flush
  · obtain ⟨b, hb, hcopy⟩ := hallowed (by simpa [Entity.isTransient] using hid)
    exact h.merge hid hb hcopy user flush

theorem Sound.other (h : Sound w) {c : Call} (hspared : w.Allows (.other c)) :
    Sound (w.after (.other c)) := by
  have hlast := lastId_le_after c w.engine.store
  refine ⟨h.reachable.step c, ?_, ?_, ?_⟩
  · exact fun a ha => Int64.le_trans (h.obtained a ha) hlast
  · exact fun s hs => Int64.le_trans (h.savings s hs) hlast
  · intro id hinserted
    obtain ⟨first, rest, htrail⟩ := h.trails id hinserted
    have hwrites := hspared id hinserted
    exact ⟨first, rest, htrail.kept rfl (row?_after_of_writes hwrites)
      (htrail.coherent.after (overwrites_of_writes hwrites)) fun a ha _ => .inl ha⟩

theorem Sound.step (h : Sound w) (s : Step E) (hallowed : w.Allows s) : Sound (w.after s) := by
  cases s with
  | save a user flush => exact h.save a user flush hallowed
  | load id clear => exact h.load id clear
  | list first limit make => exact h.list first limit make
  | clock now =>
      exact h.kept h.reachable rfl rfl rfl (fun _ hcoherent => hcoherent) fun a ha => .inl ha
  | other c => exact h.other hallowed

theorem Runs.sound (h : Runs w) : Sound w := by
  induction h with
  | start hreach => exact .start hreach
  | step s _ hallowed ih => exact ih.step s hallowed

theorem audit_trail (h : Runs w) :
    (∀ id, w.Inserted id → ∃ first rest row x,
      w.savingsOf id = first :: rest ∧ first.inserted = true ∧ (∀ s ∈ rest, s.inserted = false) ∧
        w.engine.store.tables.row? (Entity.name E) id = some row ∧ Audit.ofRow row = .ok x ∧
        Tells first rest x) ∧
      ∀ (a : E) user flush fault, (w.engine.saveAudited a user flush).1 = .error fault →
        (w.engine.saveAudited a user flush).2 = w.engine ∧ w.after (.save a user flush) = w := by
  constructor
  · intro id hinserted
    obtain ⟨first, rest, htrail⟩ := h.sound.trails id hinserted
    obtain ⟨row, x, hrow, hread, htells⟩ := htrail.stored
    exact ⟨first, rest, row, x, htrail.savings, htrail.inserted, htrail.merged, hrow, hread, htells⟩
  · intro a user flush fault hfault
    have hrefused := saveAudited_refused h.sound.reachable hfault
    exact ⟨congrArg Prod.snd hrefused, after_of_refused hrefused⟩

def noon : Time.Instant := Time.Instant.epoch.advanceMillis 43200000

def blankPage : Document := { title := "page" }

def pressPage : Document := {
  audit := { id := 1, creator := some 1, editor := some 1 }
  title := "press" }

def office : Work Document :=
  ((((({ engine := { store := {} } } : Work Document).after (.save blankPage (some 1) false)).after
    (.clock noon)).after (.save pressPage (some 2) true)).after
    (.save pressPage (some 3) true)).after
    (.load 1 true)

theorem audit_trail_of_office : Runs office ∧ office.Inserted 1 ∧ ∃ row x,
    office.engine.store.tables.row? "document" 1 = some row ∧ Audit.ofRow row = .ok x ∧
      x.created = Time.Instant.epoch ∧ x.creator = some 1 ∧ x.edited = noon ∧ x.editor = some 2 ∧
      x.version = 1 := by
  have hcopy : Copies pressPage { pressPage with title := "page" } := ⟨rfl, rfl, rfl, rfl⟩
  have hruns : Runs office := by
    refine .step (.load 1 true) (.step (.save pressPage (some 3) true)
      (.step (.save pressPage (some 2) true) (.step (.clock noon)
        (.step (.save blankPage (some 1) false) (.start .start) ?_) trivial) ?_) ?_) trivial
    · exact nofun
    · exact fun _ => ⟨_, by decide, hcopy⟩
    · exact fun _ => ⟨_, by decide, hcopy⟩
  have hinserted : office.Inserted 1 := ⟨⟨1, true, Time.Instant.epoch, some 1⟩, by decide⟩
  obtain ⟨first, rest, row, x, hsavings, -, -, hrow, hread, htells⟩ :=
    (audit_trail hruns).1 1 hinserted
  have hlist : office.savingsOf 1 =
      [⟨1, true, Time.Instant.epoch, some 1⟩, ⟨1, false, noon, some 2⟩] := by decide
  obtain ⟨rfl, rfl⟩ := List.cons.inj (hlist.symm.trans hsavings)
  exact ⟨hruns, hinserted, row, x, hrow, hread, htells.created, htells.creator, htells.edited,
    htells.editor, Int64.toInt_inj.mp htells.version⟩

end Work

end Engine

end RecordQuery
