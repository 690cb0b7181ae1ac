import RecordQuery.Engine.Plan
import RecordQuery.Proofs.Builder.Accepts
import RecordQuery.Proofs.Data.Except

namespace RecordQuery

open RecordQuery.Time

namespace IdSet

theorem mem_toList {s : IdSet} {id : Int64} : id ∈ s.toList ↔ s.contains id = true := by
  simp only [toList, Keyed.keys, List.mem_map, Keyed.contains, Option.isSome_iff_exists,
    ← Keyed.mem_entries_iff, Prod.exists, exists_and_right, exists_eq_right]

end IdSet

namespace Row

variable {row : Row} {column : String} {α : Type} {view : Value → Option α} {kind : Kind}

theorem view_of_read? {o : Option α} (h : read? view kind row column = .ok o) :
    (value row column = .null ∧ o = none) ∨ ∃ a, o = some a ∧ view (value row column) = some a := by
  unfold read? at h
  split at h
  · rename_i hnull
    exact .inl ⟨hnull, (Except.ok.inj h).symm⟩
  · split at h
    · rename_i a hview
      exact .inr ⟨a, (Except.ok.inj h).symm, hview⟩
    · cases h

theorem read?_of_read {a : α} (h : read view kind row column = .ok a) :
    read? view kind row column = .ok (some a) := by
  unfold read at h
  split at h
  · rename_i hread
    rw [hread, Except.ok.inj h]
  · cases h
  · cases h

theorem view_of_read {a : α} (h : read view kind row column = .ok a) :
    view (value row column) = some a := by
  rcases view_of_read? (read?_of_read h) with ⟨-, hnone⟩ | ⟨b, hsome, hview⟩
  · cases hnone
  · rw [hview, hsome]

end Row

namespace Value

variable {v : Value}

theorem compare?_int {n : Int64} (h : v.asInt = some n) (m : Int64) :
    v.compare? (.int m) = some (compare n m) := by
  cases v <;> simp_all [asInt, compare?]

theorem compare?_time {t : Instant} (h : v.asTime = some t) (u : Instant) :
    v.compare? (.time u) = some (compare t u) := by
  cases v with
  | null => cases h
  | bool b => cases h
  | int n => cases h
  | text s =>
      have hs : Instant.read? s = some t := h
      simp [compare?, compareTimes, asTime, hs]
  | time s => obtain rfl := Option.some.inj h; rfl

def IsMark (v : Value) : Prop :=
  v = .null ∨ (∃ b, v = .bool b) ∨ v = .int 0 ∨ v = .int 1

end Value

namespace Audit

structure Read (row : Row) (a : Audit) : Prop where
  id : Row.int row Row.idColumn = .ok a.id
  created : Row.time row createdColumn = .ok a.created
  edited : Row.time row editedColumn = .ok a.edited
  creator : Row.int? row creatorColumn = .ok a.creator
  editor : Row.int? row editorColumn = .ok a.editor
  version : Row.int row Row.versionColumn = .ok a.version
  deleted : ∃ d, Row.bool? row deletedColumn = .ok d ∧ a.deleted = d.getD false

theorem read_of_ofRow {row : Row} {a : Audit} (h : ofRow row = .ok a) : Read row a := by
  simp only [ofRow, bind_eq_ok] at h
  obtain ⟨id, hid, created, hcreated, edited, hedited, creator, hcreator, editor, heditor,
    version, hversion, deleted, hdeleted, ha⟩ := h
  obtain rfl := Except.ok.inj ha
  exact ⟨hid, hcreated, hedited, hcreator, heditor, hversion, deleted, hdeleted, rfl⟩

end Audit

namespace AuditFilter

def Admitted (ids : Option IdSet) (id : Option Int64) : Prop :=
  ∀ s, ids = some s → s.toList = [] ∨ ∃ i, id = some i ∧ s.contains i = true

structure Admits (f : AuditFilter) (a : Audit) : Prop where
  deleted : ∀ b, f.deleted = some b → b = a.deleted
  ids : Admitted f.ids (some a.id)
  creators : Admitted f.creators a.creator
  editors : Admitted f.editors a.editor
  created : ∀ r, f.created = some r → r.Within a.created
  edited : ∀ r, f.edited = some r → r.Within a.edited
  version : ∀ r, f.version = some r → r.Within a.version

variable {b : Builder} {params : Parameters} {row : Row} {column : String}

theorem meaning_boolPredicate (flag : Bool) :
    (Builder.boolPredicate column flag).meaning params row = .yes ↔
      (flag = false ∧ Row.value row column = .null) ∨
        (Row.value row column).compare? (.bool flag) = some .eq := by
  have hequal : (Predicate.equal (.field column) (.bool flag)).meaning params row = .yes ↔
      (Row.value row column).compare? (.bool flag) = some .eq := by
    simp [Predicate.equal, Predicate.meaning, Operand.value?, Expr.value, CompareOp.test,
      Truth.ofOrdering_eq_yes, CompareOp.holds]
  have hnull : (Row.value row column).isNull = true ↔ Row.value row column = .null := by
    cases Row.value row column <;> simp [Value.isNull]
  cases flag with
  | true => simpa [Builder.boolPredicate] using hequal
  | false =>
      simp [Builder.boolPredicate, Predicate.meaning_anyOf_eq_yes, Predicate.meaning, Expr.value,
        hnull, hequal]

theorem meaning_mark {d : Option Bool} (hmark : (Row.value row column).IsMark)
    (hread : Row.bool? row column = .ok d) (flag : Bool) :
    (Builder.boolPredicate column flag).meaning params row = .yes ↔ flag = d.getD false := by
  rw [meaning_boolPredicate]
  have hview := Row.view_of_read? hread
  rcases hmark with h | ⟨v, h⟩ | h | h <;> rw [h] at hview ⊢
  · obtain ⟨-, rfl⟩ | ⟨a, -, ha⟩ := hview
    · cases flag <;> decide
    · cases ha
  · obtain ⟨hnull, -⟩ | ⟨a, rfl, ha⟩ := hview
    · cases hnull
    · obtain rfl := Option.some.inj ha
      cases flag <;> cases v <;> decide
  · obtain ⟨hnull, -⟩ | ⟨a, rfl, ha⟩ := hview
    · cases hnull
    · obtain rfl := Option.some.inj ha
      cases flag <;> decide
  · obtain ⟨hnull, -⟩ | ⟨a, rfl, ha⟩ := hview
    · cases hnull
    · obtain rfl := Option.some.inj ha
      cases flag <;> decide

theorem accepts_mark {d : Option Bool} (hmark : (Row.value row column).IsMark)
    (hread : Row.bool? row column = .ok d) {flag : Option Bool} :
    (b.equalBool column flag).Accepts params row ↔
      b.Accepts params row ∧ ∀ v, flag = some v → v = d.getD false := by
  simp only [Builder.accepts_equalBool, meaning_mark hmark hread]

theorem accepts_idValues (hlimit : 0 < b.settings.listLimit) {id : Option Int64}
    (hread : Row.int? row column = .ok id) (ids : Option IdSet) :
    (b.among column (idValues ids)).Accepts params row ↔
      b.Accepts params row ∧ Admitted ids id := by
  rw [Builder.accepts_among hlimit]
  refine and_congr_right fun _ => ?_
  cases ids with
  | none => simp [idValues, Admitted]
  | some s =>
      have hmatch : (∃ v ∈ s.toList.map Value.int,
            (Row.value row column).compare? v = some .eq) ↔
          ∃ i, id = some i ∧ s.contains i = true := by
        rcases Row.view_of_read? hread with ⟨hnull, rfl⟩ | ⟨i, rfl, hview⟩
        · simp [hnull, Value.compare?]
        · simp [Value.compare?_int hview, IdSet.mem_toList]
      simp only [idValues, Admitted, hmatch, ne_eq, List.map_eq_nil_iff, Option.some.injEq,
        forall_eq', or_iff_not_imp_left]

theorem accepts_times {t : Instant} (hread : Row.time row column = .ok t)
    (range : Option (Bounds Instant)) :
    (b.betweenTimes column range).Accepts params row ↔
      b.Accepts params row ∧ ∀ r, range = some r → r.Within t :=
  Builder.accepts_between (Value.compare?_time (Row.view_of_read hread))

theorem accepts_ints {n : Int64} (hread : Row.int row column = .ok n)
    (range : Option (Bounds Int64)) :
    (b.betweenInts column range).Accepts params row ↔
      b.Accepts params row ∧ ∀ r, range = some r → r.Within n :=
  Builder.accepts_between (Value.compare?_int (Row.view_of_read hread))

theorem settings_equalBool (flag : Option Bool) :
    (b.equalBool column flag).settings = b.settings := by
  cases flag <;> rfl

theorem settings_among (values : List Value) :
    (b.among column values).settings = b.settings := by
  unfold Builder.among
  split
  · rfl
  · split <;> rfl

theorem accepts_start (c : Criteria) (locale : Locale) : (c.builder locale).Accepts params row := by
  intro p hp
  cases hp

theorem accepted_iff_admits (f : AuditFilter) (c : Criteria) (hc : c.settings.check = .ok ())
    (locale : Locale) (params : Parameters) {row : Row} {a : Audit}
    (hrow : Audit.ofRow row = .ok a) (hmark : (Row.value row Audit.deletedColumn).IsMark) :
    (∀ p ∈ (f.builder (c.builder locale)).predicates, p.evaluate params row = .ok .yes) ↔
      f.Admits a := by
  have hread := Audit.read_of_ofRow hrow
  obtain ⟨d, hdeleted, hd⟩ := hread.deleted
  have hlimit : 0 < (c.builder locale).settings.listLimit :=
    Settings.listLimit_pos hc
  have hall : (f.builder (c.builder locale)).Accepts params row ↔
      ((((((((c.builder locale).Accepts params row ∧ ∀ v, f.deleted = some v → v = d.getD false) ∧
        Admitted f.ids (some a.id)) ∧ Admitted f.creators a.creator) ∧
        Admitted f.editors a.editor) ∧ ∀ r, f.created = some r → r.Within a.created) ∧
        ∀ r, f.edited = some r → r.Within a.edited) ∧
        ∀ r, f.version = some r → r.Within a.version) := by
    rw [builder, accepts_ints hread.version, accepts_times hread.edited,
      accepts_times hread.created, accepts_idValues _ hread.editor,
      accepts_idValues _ hread.creator,
      accepts_idValues _ (Row.read?_of_read hread.id), accepts_mark hmark hdeleted] <;>
      simpa only [settings_among, settings_equalBool] using hlimit
  refine hall.trans ⟨?_, ?_⟩
  · rintro ⟨⟨⟨⟨⟨⟨⟨-, hmarks⟩, hids⟩, hcreators⟩, heditors⟩, hcreated⟩, hedited⟩, hversion⟩
    exact ⟨fun v hv => hd ▸ hmarks v hv, hids, hcreators, heditors, hcreated, hedited, hversion⟩
  · intro h
    exact ⟨⟨⟨⟨⟨⟨⟨accepts_start c locale, fun v hv => hd ▸ h.deleted v hv⟩, h.ids⟩, h.creators⟩,
      h.editors⟩, h.created⟩, h.edited⟩, h.version⟩

def noon : Instant := Instant.epoch.advanceMillis 43200000

def note : Audit := ⟨2, .epoch, noon, none, some 7, 3, true⟩

def noteRow : Row :=
  Keyed.ofList [(Row.idColumn, .int 2), (Audit.createdColumn, .text "1970-01-01T00:00:00.000000Z"),
    (Audit.editedColumn, .text "1970-01-01T12:00:00.000000Z"), (Audit.creatorColumn, .null),
    (Audit.editorColumn, .int 7), (Row.versionColumn, .int 3), (Audit.deletedColumn, .int 1)]

def noteFilter : AuditFilter :=
  { identity := { ids := some (IdSet.ofList [1, 2, 3]) }, editors := some (IdSet.ofList [7, 8])
    creators := some .empty, created := some (.between .epoch noon), edited := some (.atLeast noon)
    version := some (.between 3 3), deleted := some true }

theorem accepted_of_note :
    let c : Criteria := ⟨"note", { listLimit := 1 }⟩
    c.settings.check = .ok () ∧ Audit.ofRow noteRow = .ok note ∧
      (Row.value noteRow Audit.deletedColumn).IsMark ∧
      ∀ p ∈ (noteFilter.builder (c.builder .english)).predicates,
        p.evaluate .empty noteRow = .ok .yes := by
  intro c
  have hcheck : c.settings.check = .ok () := by decide +kernel
  have hrow : Audit.ofRow noteRow = .ok note := by decide +kernel
  have hvalue : Row.value noteRow Audit.deletedColumn = .int 1 := by decide +kernel
  have hmark : (Row.value noteRow Audit.deletedColumn).IsMark := .inr (.inr (.inr hvalue))
  refine ⟨hcheck, hrow, hmark, ?_⟩
  apply (accepted_iff_admits noteFilter c hcheck .english .empty hrow hmark).mpr
  refine ⟨?_, ?_, ?_, ?_, ?_, ?_, ?_⟩
  · rintro b ⟨⟩
    rfl
  · rintro s ⟨⟩
    exact .inr ⟨2, rfl, by decide +kernel⟩
  · rintro s ⟨⟩
    exact .inl rfl
  · rintro s ⟨⟩
    exact .inr ⟨7, rfl, by decide +kernel⟩
  · rintro r ⟨⟩
    exact Bounds.within_iff.mpr ⟨by rintro low ⟨⟩; decide, by rintro high ⟨⟩; decide⟩
  · rintro r ⟨⟩
    exact Bounds.within_iff.mpr ⟨by rintro low ⟨⟩; decide, by rintro high ⟨⟩⟩
  · rintro r ⟨⟩
    exact Bounds.within_iff.mpr ⟨by rintro low ⟨⟩; decide, by rintro high ⟨⟩; decide⟩

end AuditFilter

end RecordQuery
