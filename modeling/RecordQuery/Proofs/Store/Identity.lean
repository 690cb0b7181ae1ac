import RecordQuery.Proofs.Store.Run

namespace RecordQuery.Memory

variable {s : Memory}

def Attained (s : Memory) : Prop :=
  s.lastId = 0 ∨ ∃ entity, (s.tables.row? entity s.lastId).isSome

theorem attained_start : Attained {} := .inl rfl

theorem isSome_row?_after (c : Call) {entity : String} {id : Int64}
    (h : (s.tables.row? entity id).isSome) : ((after c s).tables.row? entity id).isSome := by
  rcases after_cases c s with ⟨htables, -⟩ | ⟨e, i, row, htables, -⟩
  · rwa [htables]
  · rw [htables, RowFile.row?_put]
    split
    · rfl
    · exact h

theorem isSome_row?_afterAll (calls : List Call) {entity : String} {id : Int64}
    (h : (s.tables.row? entity id).isSome) : ((afterAll calls s).tables.row? entity id).isSome := by
  induction calls generalizing s with
  | nil => exact h
  | cons c rest ih => exact ih (isSome_row?_after c h)

theorem Attained.step (h : Attained s) (c : Call) : Attained (after c s) := by
  have hkept : (after c s).lastId = s.lastId → Attained (after c s) := by
    intro hlast
    rcases h with hzero | ⟨entity, hrow⟩
    · exact .inl (hlast.trans hzero)
    · refine .inr ⟨entity, ?_⟩
      rw [hlast]
      exact isSome_row?_after c hrow
  have hgiven : ∀ {entity id row}, (after c s).tables = s.tables.put entity id row →
      (after c s).lastId = id → Attained (after c s) := by
    intro entity id row htables hlast
    refine .inr ⟨entity, ?_⟩
    rw [hlast, htables, RowFile.row?_put, if_pos ⟨rfl, rfl⟩]
    rfl
  rcases after_cases c s with
    ⟨-, hlast⟩ | ⟨entity, id, row, htables, -, hlast | ⟨-, -, -, hlast⟩⟩
  · exact hkept hlast
  · rw [Integer.max_eq_ite] at hlast
    split at hlast
    · exact hgiven htables hlast
    · exact hkept hlast
  · exact hgiven htables hlast

theorem Attained.room (h : Attained s)
    (hmax : ∀ entity, s.tables.row? entity Int64.maxValue = none) : s.lastId < Int64.maxValue := by
  refine Integer.lt_maxValue_of_ne fun hlast => ?_
  rcases h with hzero | ⟨entity, hrow⟩
  · exact absurd (hzero.symm.trans hlast) (by decide)
  · rw [hlast, hmax entity] at hrow
    cases hrow

theorem attained_afterAll (calls : List Call) (h : Attained s) : Attained (afterAll calls s) := by
  induction calls generalizing s with
  | nil => exact h
  | cons c rest ih => exact ih (h.step c)

theorem ids_never_reused (calls : List Call)
    (hmax : ∀ entity, (afterAll calls {}).tables.row? entity Int64.maxValue = none) :
    let s := afterAll calls {}
    0 ≤ s.lastId ∧
      (∀ entity id row, s.tables.row? entity id = some row →
        id ≤ s.lastId ∧ Row.int row Row.idColumn = .ok id) ∧
      ∀ entity row, ∃ id stored, (insert entity row s).1 = .ok stored ∧
        Row.int stored Row.idColumn = .ok id ∧ 0 < id ∧
        (∀ before later, calls = before ++ later →
          ∀ e, (afterAll before {}).tables.row? e id = none) ∧
        (insert entity row s).2.tables.row? entity id = some stored ∧
        ∀ e i r, s.tables.row? e i = some r →
          (insert entity row s).2.tables.row? e i = some r := by
  intro s
  have hbounded : Bounded s := bounded_afterAll calls bounded_start
  have hroom : s.lastId < Int64.maxValue := (attained_afterAll calls attained_start).room hmax
  have hids : IdsRead s := idsRead_afterAll calls idsRead_start
  refine ⟨hbounded.nonneg, fun entity id row hrow => ⟨hbounded.below hrow, hids entity id row hrow⟩,
    ?_⟩
  intro entity row
  let id := s.lastId + 1
  let stored := withVersionIfAny (numbered id row) 0
  have hinsert := insert_of_room entity row hroom
  have hnew : ∀ e, s.tables.row? e id = none := hbounded.isNew hroom
  have hput : ∀ e i, (insert entity row s).2.tables.row? e i =
      if e = entity ∧ i = id then some stored else s.tables.row? e i := by
    intro e i
    rw [hinsert]
    exact RowFile.row?_put ..
  refine ⟨id, stored, congrArg Prod.fst hinsert, int_withVersionIfAny_id id 0 row, ?_, ?_, ?_, ?_⟩
  · exact Int64.lt_of_le_of_lt hbounded.nonneg (Integer.lt_succ hroom)
  · intro before later hcalls e
    refine Option.not_isSome_iff_eq_none.mp fun hrow => ?_
    have hlater := isSome_row?_afterAll later hrow
    rw [← afterAll_append, ← hcalls, hnew e] at hlater
    cases hlater
  · rw [hput, if_pos ⟨rfl, rfl⟩]
  · intro e i r hr
    rw [hput, if_neg, hr]
    rintro ⟨-, rfl⟩
    rw [hnew e] at hr
    cases hr

def leaps : List Call := [
  .insert "page" .empty,
  .writeExternally "tag" (.ofList [("id", .int (-4))]),
  .update "page" 9 none (.ofList [("id", .int 1)]),
  .writeExternally "tag" (.ofList [("id", .bool true)]),
  .next "pages",
  .update "page" 9 (some 0) .empty]

theorem ids_never_reused_of_leaps :
    (∀ entity, (afterAll leaps {}).tables.row? entity Int64.maxValue = none) ∧
      (insert "tag" .empty (afterAll leaps {})).1 = .ok (numbered 10 .empty) ∧
      ∀ e, (afterAll leaps {}).tables.row? e 10 = none := by
  have hregions : ∀ x ∈ (afterAll leaps {}).tables.regions.entries,
      x.2.get? Int64.maxValue = none := by
    decide +kernel
  have hmax : ∀ entity, (afterAll leaps {}).tables.row? entity Int64.maxValue = none := by
    intro entity
    rw [RowFile.row?, RowFile.region]
    cases hregion : (afterAll leaps {}).tables.regions.get? entity with
    | none => rfl
    | some region => exact hregions (entity, region) (Keyed.mem_entries_iff.mpr hregion)
  have hinsert : (insert "tag" .empty (afterAll leaps {})).1 = .ok (numbered 10 .empty) := by
    decide +kernel
  obtain ⟨-, -, hnext⟩ := ids_never_reused leaps hmax
  obtain ⟨id, stored, hstored, hread, -, hnever, -⟩ := hnext "tag" .empty
  obtain rfl := Except.ok.inj (hinsert.symm.trans hstored)
  obtain rfl : 10 = id := Except.ok.inj ((int_numbered_id 10 .empty).symm.trans hread)
  exact ⟨hmax, hinsert, hnever leaps [] (List.append_nil leaps).symm⟩

end RecordQuery.Memory
