import Mathlib.Data.List.Nodup
import Mathlib.Data.List.Range
import RecordQuery.Proofs.Store.Run

namespace RecordQuery.Memory

def Call.isGuarded : Call → Bool
  | .update _ _ expected _ => expected.isSome
  | .writeExternally .. => false
  | _ => true

structure Win where
  expected : Int64
  given : Row
  written : Row
  store : Memory

variable (entity : String) (id : Int64)

def wonBy : Call → Memory → Option Win
  | .update e i (some version) row, s =>
      if e = entity ∧ i = id then
        match update e i (some version) row s with
        | (.ok written, t) => some ⟨version, row, written, t⟩
        | (.error _, _) => none
      else none
  | _, _ => none

def won : List Call → Memory → List Win
  | [], _ => []
  | c :: rest, s => (wonBy entity id c s).toList ++ won rest (after c s)

def idGiven : Call → Memory → Option Int64
  | .insert e row, s =>
      if e = entity ∧ (insert e row s).1.isOk then some (s.lastId + 1) else none
  | _, _ => none

def idsGiven : List Call → Memory → List Int64
  | [], _ => []
  | c :: rest, s => (idGiven entity c s).toList ++ idsGiven rest (after c s)

structure Holding (row : Row) (version : Int64) (s : Memory) : Prop where
  stored : s.tables.row? entity id = some row
  readable : Row.int? row Row.versionColumn = .ok (some version)

variable {entity : String} {id : Int64}

theorem Holding.of_row? {row : Row} {version : Int64} {s t : Memory}
    (h : Holding entity id row version s)
    (ht : t.tables.row? entity id = s.tables.row? entity id) :
    Holding entity id row version t :=
  ⟨ht.trans h.stored, h.readable⟩

theorem wonBy_silent {c : Call} (hc : c.isSilent = true) (s : Memory) :
    wonBy entity id c s = none := by
  cases c <;> first | rfl | cases hc

theorem Holding.versionAt_eq {row : Row} {version : Int64} {s : Memory}
    (h : Holding entity id row version s) : versionAt entity id s = .ok (some version) :=
  (versionAt_of_row? h.stored).trans h.readable

theorem holding_replace (version : Int64) (row : Row) (s : Memory) :
    Holding entity id (versioned id version row) version
      (replace entity id (versioned id version row) s).2 := by
  refine ⟨?_, int?_versioned id version row⟩
  simp [replace]

theorem idGiven_insert {e : String} {r : Row} {s : Memory} :
    idGiven entity (.insert e r) s = some id ↔
      e = entity ∧ s.lastId < Int64.maxValue ∧ id = s.lastId + 1 := by
  rw [idGiven]
  rcases insert_cases e r s with ⟨hroom, hinsert⟩ | ⟨hlast, hinsert⟩
  · simp [hinsert, hroom, Except.isOk, Except.toBool, eq_comm]
  · simp [hinsert, hlast, Except.isOk, Except.toBool, Int64.lt_irrefl]

theorem Holding.step {row : Row} {version : Int64} {s : Memory}
    (h : Holding entity id row version s) {c : Call} (hguard : c.isGuarded = true)
    (hfresh : id ∉ (idGiven entity c s).toList) :
    (wonBy entity id c s = none ∧ Holding entity id row version (after c s)) ∨
      ∃ given, version < Int64.maxValue ∧ wonBy entity id c s =
          some ⟨version, given, versioned id (version + 1) given, after c s⟩ ∧
        Holding entity id (versioned id (version + 1) given) (version + 1) (after c s) := by
  by_cases hsilent : c.isSilent = true
  · refine .inl ⟨wonBy_silent hsilent s, h.of_row? ?_⟩
    rw [(tables_after_silent hsilent s).1]
  cases c with
  | insert e r =>
      -- The id of a new row is fresh by assumption, so the row that is held is another one.
      refine .inl ⟨rfl, h.of_row? ?_⟩
      rw [Option.mem_toList, idGiven_insert] at hfresh
      rcases insert_cases e r s with ⟨hroom, hinsert⟩ | ⟨-, hinsert⟩
      · have hne : ¬(entity = e ∧ id = s.lastId + 1) :=
          fun hkey => hfresh ⟨hkey.1.symm, hroom, hkey.2⟩
        simp [after, hinsert, hne]
      · rw [after, hinsert]
  | update e i expected r =>
      cases expected with
      | none => cases hguard
      | some asked =>
          by_cases hkey : e = entity ∧ i = id
          · obtain ⟨rfl, rfl⟩ := hkey
            rcases update_checked e i asked r s with ⟨hv, hroom, hu⟩ | ⟨fault, hu⟩
            · have hasked : version = asked := by
                simpa using h.versionAt_eq.symm.trans hv
              subst hasked
              refine .inr ⟨r, hroom, ?_, ?_⟩
              · simp [wonBy, after, hu, replace]
              · rw [after, hu]
                exact holding_replace (version + 1) r s
            · refine .inl ⟨by simp [wonBy, hu], ?_⟩
              rw [after, hu]
              exact h
          · have hother : ¬(entity = e ∧ id = i) := fun hk => hkey ⟨hk.1.symm, hk.2.symm⟩
            refine .inl ⟨by simp [wonBy, hkey], h.of_row? ?_⟩
            rcases update_checked e i asked r s with ⟨_, _, hu⟩ | ⟨fault, hu⟩
            · simp [after, hu, replace, hother]
            · rw [after, hu]
  | writeExternally e r => cases hguard
  | _ => exact absurd rfl hsilent

/-- What a run makes of a row that it starts with: the accepted updates expect one version after the
other, each is stored as it was given but for id and version, and the last one stays. -/
structure Linear (entity : String) (id : Int64) (row : Row) (version : Int64) (calls : List Call)
    (s : Memory) : Prop where
  expected : (won entity id calls s).map (·.expected.toInt) =
    (List.range (won entity id calls s).length).map (version.toInt + Nat.cast ·)
  raised : ∀ u ∈ won entity id calls s, (u.expected + 1).toInt = u.expected.toInt + 1
  written : ∀ u ∈ won entity id calls s, u.written = versioned id (u.expected + 1) u.given
  stored : ∀ u ∈ won entity id calls s, Holding entity id u.written (u.expected + 1) u.store
  last : (afterAll calls s).tables.row? entity id =
    some (((won entity id calls s).map (·.written)).getLast?.getD row)

theorem range_succ_shift (first : Int) (n : Nat) :
    (List.range (n + 1)).map (first + Nat.cast ·) =
      first :: (List.range n).map (first + 1 + Nat.cast ·) := by
  rw [List.range_succ_eq_map, List.map_cons, List.map_map]
  refine congrArg₂ List.cons (by simp) (List.map_congr_left fun k _ => ?_)
  simp only [Function.comp_apply]
  omega

theorem Holding.run {calls : List Call} {row : Row} {version : Int64} {s : Memory}
    (h : Holding entity id row version s) (hguard : ∀ c ∈ calls, c.isGuarded = true)
    (hfresh : id ∉ idsGiven entity calls s) : Linear entity id row version calls s := by
  induction calls generalizing row version s with
  | nil => exact ⟨rfl, by simp [won], by simp [won], by simp [won], h.stored⟩
  | cons c rest ih =>
      have hguards := List.forall_mem_cons.mp hguard
      rw [idsGiven, List.mem_append, not_or] at hfresh
      rcases h.step hguards.1 hfresh.1 with ⟨hwon, hnext⟩ | ⟨given, hroom, hwon, hnext⟩
      · have hrest := ih hnext hguards.2 hfresh.2
        have heq : won entity id (c :: rest) s = won entity id rest (after c s) := by
          simp [won, hwon]
        exact ⟨heq ▸ hrest.expected, heq ▸ hrest.raised, heq ▸ hrest.written, heq ▸ hrest.stored,
          heq ▸ hrest.last⟩
      · have hrest := ih hnext hguards.2 hfresh.2
        have hsucc : (version + 1).toInt = version.toInt + 1 := Integer.toInt_succ hroom
        have heq : won entity id (c :: rest) s =
            ⟨version, given, versioned id (version + 1) given, after c s⟩ ::
              won entity id rest (after c s) := by
          simp [won, hwon]
        refine ⟨?_, ?_, ?_, ?_, ?_⟩
        · rw [heq, List.map_cons, hrest.expected, List.length_cons, range_succ_shift, hsucc]
        · rw [heq]
          exact List.forall_mem_cons.mpr ⟨hsucc, hrest.raised⟩
        · rw [heq]
          exact List.forall_mem_cons.mpr ⟨rfl, hrest.written⟩
        · rw [heq]
          exact List.forall_mem_cons.mpr ⟨hnext, hrest.stored⟩
        · rw [afterAll, hrest.last, heq, List.map_cons, List.getLast?_cons, Option.getD_some]

theorem Bounded.toInt_lastId_after {s : Memory} (h : Bounded s) {c : Call}
    (hguard : c.isGuarded = true) :
    (after c s).lastId.toInt =
      min (s.lastId.toInt + if c.isInsert then 1 else 0) Int64.maxValue.toInt := by
  have hmost : s.lastId.toInt ≤ Int64.maxValue.toInt :=
    Int64.le_iff_toInt_le.mp (Int64.le_maxValue s.lastId)
  have hkept : c.isInsert = false → (after c s).lastId = s.lastId → (after c s).lastId.toInt =
      min (s.lastId.toInt + if c.isInsert then 1 else 0) Int64.maxValue.toInt := by
    intro hinsert hlast
    rw [hlast, if_neg (by simp [hinsert])]
    omega
  by_cases hsilent : c.isSilent = true
  · exact hkept (isInsert_silent hsilent) (tables_after_silent hsilent s).2
  cases c with
  | insert e r =>
      rcases insert_cases e r s with ⟨hroom, hinsert⟩ | ⟨hlast, hinsert⟩
      · have hlt := Int64.lt_iff_toInt_lt.mp hroom
        rw [after, hinsert]
        change (s.lastId + 1).toInt = min (s.lastId.toInt + 1) Int64.maxValue.toInt
        rw [Integer.toInt_succ hroom]
        omega
      · rw [after, hinsert]
        change s.lastId.toInt = min (s.lastId.toInt + 1) Int64.maxValue.toInt
        rw [hlast]
        omega
  | update e i expected r =>
      refine hkept rfl ?_
      cases expected with
      | none => cases hguard
      | some version =>
          rcases update_checked e i version r s with ⟨hv, -, hu⟩ | ⟨fault, hu⟩
          · obtain ⟨row, hrow, _⟩ := exists_of_versionAt hv
            rw [after, hu]
            exact Integer.max_eq_left (h.below hrow)
          · rw [after, hu]
  | writeExternally e r => cases hguard
  | _ => exact absurd rfl hsilent

theorem toInt_lastId_afterAll {calls : List Call} (hguard : ∀ c ∈ calls, c.isGuarded = true) :
    (afterAll calls {}).lastId.toInt =
      min (calls.countP Call.isInsert : Int) Int64.maxValue.toInt := by
  induction calls using List.reverseRecOn with
  | nil => decide
  | append_singleton calls c ih =>
      obtain ⟨hcalls, hc⟩ := List.forall_mem_append.mp hguard
      have hlast := (bounded_afterAll calls bounded_start).toInt_lastId_after
        (hc c (List.mem_singleton_self c))
      rw [afterAll_append, List.countP_append, List.countP_singleton]
      change (after c (afterAll calls {})).lastId.toInt = _
      rw [hlast, ih hcalls]
      split <;> omega

theorem lastId_lt_idsGiven {calls : List Call} {s : Memory} {entity : String} {id : Int64}
    (hid : id ∈ idsGiven entity calls s) : s.lastId < id := by
  induction calls generalizing s with
  | nil => cases hid
  | cons c rest ih =>
      rcases List.mem_append.mp hid with hid | hid
      · rw [Option.mem_toList] at hid
        cases c with
        | insert e r =>
            obtain ⟨-, hroom, rfl⟩ := idGiven_insert.mp hid
            exact Integer.lt_succ hroom
        | _ => cases hid
      · exact Int64.lt_of_le_of_lt (lastId_le_after c s) (ih hid)

theorem nodup_expected {wins : List Win}
    (h : wins.map (·.expected.toInt) = (List.range wins.length).map Nat.cast) :
    (wins.map (·.expected)).Nodup := by
  refine List.Nodup.of_map Int64.toInt ?_
  rw [List.map_map, Function.comp_def, h]
  exact List.nodup_range.map fun _ _ h => Int.ofNat.inj h

theorem no_lost_update {before rest : List Call} {entity : String} {row : Row}
    (hguard : ∀ c ∈ before ++ .insert entity row :: rest, c.isGuarded = true)
    (hversion : row.contains Row.versionColumn = true) :
    let s := afterAll before {}
    let id := s.lastId + 1
    let first := versioned id 0 row
    let t := (insert entity row s).2
    let wins := won entity id rest t
    ((∃ stored, (insert entity row s).1 = .ok stored) ↔
        before.countP Call.isInsert + 1 < 2 ^ 63) ∧
      ∀ stored, (insert entity row s).1 = .ok stored →
        stored = first ∧ s.tables.row? entity id = none ∧ id ∉ idsGiven entity rest t ∧
          t.tables.row? entity id = some first ∧
          wins.map (·.expected.toInt) = (List.range wins.length).map Nat.cast ∧
          (wins.map (·.expected)).Nodup ∧
          (∀ u ∈ wins, (u.expected + 1).toInt = u.expected.toInt + 1) ∧
          Linear entity id first 0 rest t := by
  intro s id first t wins
  have hparts := List.forall_mem_append.mp hguard
  have hrest := (List.forall_mem_cons.mp hparts.2).2
  have hlast : s.lastId.toInt = min (before.countP Call.isInsert : Int) Int64.maxValue.toInt :=
    toInt_lastId_afterAll hparts.1
  have hmax : Int64.maxValue.toInt = 9223372036854775807 := by decide
  rcases insert_cases entity row s with ⟨hroom, -⟩ | ⟨hfull, hrefused⟩
  · have hinserted : insert entity row s =
        (.ok first, { write entity id first s with lastId := id }) :=
      insert_versioned entity hversion hroom
    constructor
    · have hlt := Int64.lt_iff_toInt_lt.mp hroom
      exact iff_of_true ⟨first, congrArg Prod.fst hinserted⟩ (by omega)
    intro stored hstored
    obtain rfl := Except.ok.inj (hstored.symm.trans (congrArg Prod.fst hinserted))
    have hholding : Holding entity id first 0 t := by
      refine ⟨?_, int?_versioned id 0 row⟩
      simp only [t, hinserted, row?_write, and_self, if_true]
    have hfresh : id ∉ idsGiven entity rest t := by
      intro hagain
      have hbeyond := lastId_lt_idsGiven hagain
      rw [show t.lastId = id from congrArg (·.2.lastId) hinserted] at hbeyond
      exact Int64.lt_irrefl hbeyond
    have hlinear := hholding.run hrest hfresh
    have hexpected : wins.map (·.expected.toInt) = (List.range wins.length).map Nat.cast :=
      hlinear.expected.trans (List.map_congr_left fun k _ => Int.zero_add k)
    exact ⟨rfl, (bounded_afterAll before bounded_start).isNew hroom entity, hfresh,
      hholding.stored, hexpected, nodup_expected hexpected, hlinear.raised, hlinear⟩
  · rw [hrefused]
    refine ⟨iff_of_false nofun ?_, nofun⟩
    rw [hfull] at hlast
    omega

def draft : Row := .ofList [("title", .text "draft"), ("version", .int 7)]

def rivals : List Call := [
  .find "page" 2,
  .update "page" 2 (some 0) (draft.put "title" (.text "first")),
  .evictAll,
  .update "page" 2 (some 0) (draft.put "title" (.text "second")),
  .update "page" 2 (some 1) (draft.put "title" (.text "third"))]

theorem no_lost_update_of_rivals :
    (∀ c ∈ [Call.insert "tag" .empty] ++ .insert "page" draft :: rivals, c.isGuarded = true) ∧
      draft.contains Row.versionColumn = true ∧
      (insert "page" draft (afterAll [.insert "tag" .empty] {})).1 = .ok (versioned 2 0 draft) ∧
      (won "page" 2 rivals
        (insert "page" draft (afterAll [.insert "tag" .empty] {})).2).map (·.expected.toInt) =
        [0, 1] := by
  have hguard : ∀ c ∈ [Call.insert "tag" .empty] ++ .insert "page" draft :: rivals,
      c.isGuarded = true := by decide
  have hversion : draft.contains Row.versionColumn = true := by decide
  have hinserted : (insert "page" draft (afterAll [.insert "tag" .empty] {})).1 =
      .ok (versioned 2 0 draft) := by decide
  obtain ⟨-, -, -, -, hexpected, -⟩ := (no_lost_update hguard hversion).2 _ hinserted
  refine ⟨hguard, hversion, hinserted, hexpected.trans ?_⟩
  decide +kernel

end RecordQuery.Memory
