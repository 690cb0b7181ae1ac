import Mathlib.Data.List.Induction
import RecordQuery.Proofs.Store.Identity

namespace RecordQuery.Memory

def Call.asks (name : String) : Call → Bool
  | .next n => n == name
  | _ => false

def InRange : Call → Memory → Prop
  | .insert entity row, s => ∃ stored id, (insert entity row s).1 = .ok stored ∧
      Row.int stored Row.idColumn = .ok id ∧ id.toInt = s.lastId.toInt + 1 ∧ 0 < id
  | .update entity id (some version) row, s =>
      (update entity id (some version) row s).1 ≠ .error .overflow ∧
        ∀ written, (update entity id (some version) row s).1 = .ok written →
          ∃ v, Row.int written Row.versionColumn = .ok v ∧ v.toInt = version.toInt + 1 ∧
            version < v
  | .next name, s => ∃ value, (next name s).1 = .ok value ∧
      value.toInt = (sequenceAt name s).toInt + 1 ∧ 0 < value
  | _, _ => True

def Overruns : Call → Memory → Prop
  | .insert entity row, s => (insert entity row s).1 = .error .overflow
  | .update entity id expected row, s => (update entity id expected row s).1 = .error .overflow
  | .next name, s => (next name s).1 = .error .overflow
  | _, _ => False

/-- What came before a request leaves it a number: no row of any table has the last id, the row that
is updated does not have the last version, and the sequence has not been asked too often. -/
def HasRoom (before : List Call) : Call → Prop
  | .insert .. => ∀ entity, (afterAll before {}).tables.row? entity Int64.maxValue = none
  | .update entity id (some version) _ => version = Int64.maxValue →
      versionAt entity id (afterAll before {}) ≠ .ok (some version)
  | .next name => before.countP (·.asks name) + 1 < 2 ^ 63
  | _ => True

variable {before : List Call} {c : Call} {s : Memory}

theorem afterAll_concat (calls : List Call) (c : Call) (s : Memory) :
    afterAll (calls ++ [c]) s = after c (afterAll calls s) := afterAll_append calls [c] s

theorem sequenceAt_after_of_not_asks {name : String} (h : c.asks name = false) :
    sequenceAt name (after c s) = sequenceAt name s := by
  cases c with
  | find entity id =>
      rw [after, Memory.find]
      split
      · rfl
      · split <;> rfl
  | insert entity row =>
      rcases insert_cases entity row s with ⟨-, hi⟩ | ⟨-, hi⟩
      · rw [after, hi]
        rfl
      · rw [after, hi]
  | update entity id expected row =>
      rcases update_cases entity id expected row s with ⟨written, hu, -⟩ | ⟨fault, hu⟩
      · rw [after, hu]
        rfl
      · rw [after, hu]
  | writeExternally entity row =>
      rw [after, Memory.writeExternally]
      split <;> rfl
  | next n =>
      have hne : name ≠ n := fun heq => by simp [Call.asks, heq] at h
      rcases next_cases n s with ⟨-, hn⟩ | ⟨-, hn⟩
      · simp [after, hn, sequenceAt, hne]
      · rw [after, hn]
  | _ => rfl

theorem sequenceAt_after_next (name : String) (s : Memory) :
    (sequenceAt name (after (.next name) s)).toInt =
      min ((sequenceAt name s).toInt + 1) Int64.maxValue.toInt := by
  rcases next_cases name s with ⟨hroom, hn⟩ | ⟨hlast, hn⟩
  · have hlt := Int64.lt_iff_toInt_lt.mp hroom
    have hvalue : sequenceAt name (after (.next name) s) = sequenceAt name s + 1 := by
      simp [after, hn, sequenceAt]
    rw [hvalue, Integer.toInt_succ hroom]
    omega
  · rw [after, hn]
    change (sequenceAt name s).toInt = _
    rw [hlast]
    omega

theorem toInt_sequenceAt (name : String) (calls : List Call) :
    (sequenceAt name (afterAll calls {})).toInt =
      min (calls.countP (·.asks name) : Int) Int64.maxValue.toInt := by
  induction calls using List.reverseRecOn with
  | nil => rfl
  | append_singleton calls c ih =>
      rw [afterAll_concat, List.countP_append, List.countP_singleton]
      cases hasks : c.asks name with
      | false => simpa [sequenceAt_after_of_not_asks hasks] using ih
      | true =>
          obtain ⟨n, rfl⟩ : ∃ n, c = .next n := by
            cases c <;> first | exact ⟨_, rfl⟩ | cases hasks
          obtain rfl : n = name := by simpa [Call.asks] using hasks
          rw [sequenceAt_after_next, ih, if_pos rfl]
          omega

theorem room_iff (before : List Call) : (afterAll before {}).lastId < Int64.maxValue ↔
    ∀ entity, (afterAll before {}).tables.row? entity Int64.maxValue = none := by
  refine ⟨fun hroom entity => ?_, (attained_afterAll before attained_start).room⟩
  cases hrow : (afterAll before {}).tables.row? entity Int64.maxValue with
  | none => rfl
  | some row =>
      have hbelow := (bounded_afterAll before bounded_start).below hrow
      exact absurd hbelow (Int64.not_le.mpr hroom)

theorem sequence_room_iff (name : String) (before : List Call) :
    sequenceAt name (afterAll before {}) < Int64.maxValue ↔
      before.countP (·.asks name) + 1 < 2 ^ 63 := by
  have hmax : Int64.maxValue.toInt = 9223372036854775807 := by decide
  rw [Int64.lt_iff_toInt_lt, toInt_sequenceAt]
  omega

theorem version_room_iff {version : Int64} {Current : Prop} :
    (Current → version < Int64.maxValue) ↔ (version = Int64.maxValue → ¬Current) := by
  constructor
  · rintro h rfl hcurrent
    exact Int64.lt_irrefl (h hcurrent)
  · exact fun h hcurrent =>
      Integer.lt_maxValue_of_ne fun hlast => h hlast hcurrent

theorem int_versioned (id version : Int64) (row : Row) :
    Row.int (versioned id version row) Row.versionColumn = .ok version := by
  simp [Row.int, Row.read, Row.read?, Row.value, versioned, Value.asInt]

theorem insert_inRange (entity : String) (row : Row) (hnonneg : 0 ≤ s.lastId)
    (hroom : s.lastId < Int64.maxValue) : InRange (.insert entity row) s := by
  refine ⟨_, _, congrArg Prod.fst (insert_of_room entity row hroom),
    int_withVersionIfAny_id (s.lastId + 1) 0 row, Integer.toInt_succ hroom, ?_⟩
  exact Int64.lt_of_le_of_lt hnonneg (Integer.lt_succ hroom)

theorem update_inRange (entity : String) (id : Int64) {version : Int64} (row : Row)
    (hroom : versionAt entity id s = .ok (some version) → version < Int64.maxValue) :
    InRange (.update entity id (some version) row) s := by
  cases hversion : versionAt entity id s with
  | error e =>
      rw [InRange, update_unreadable hversion]
      exact ⟨nofun, nofun⟩
  | ok actual =>
      by_cases hactual : actual = some version
      · subst hactual
        have hlt := hroom hversion
        rw [InRange, update_current hversion hlt]
        refine ⟨nofun, ?_⟩
        rintro written ⟨⟩
        exact ⟨_, int_versioned .., Integer.toInt_succ hlt, Integer.lt_succ hlt⟩
      · rw [InRange, update_conflict hversion hactual]
        exact ⟨nofun, nofun⟩

theorem next_inRange (name : String) (hnonneg : 0 ≤ (sequenceAt name s).toInt)
    (hroom : sequenceAt name s < Int64.maxValue) : InRange (.next name) s := by
  rcases next_cases name s with ⟨-, hn⟩ | ⟨hlast, -⟩
  · have hsucc := Integer.toInt_succ hroom
    refine ⟨_, congrArg Prod.fst hn, hsucc, ?_⟩
    rw [Int64.lt_iff_toInt_lt, hsucc, Int64.toInt_zero]
    omega
  · exact absurd hroom (hlast ▸ Int64.lt_irrefl)

theorem inRange_of_hasRoom (h : HasRoom before c) : InRange c (afterAll before {}) := by
  cases c with
  | insert entity row =>
      have hbounded := bounded_afterAll before bounded_start
      exact insert_inRange entity row hbounded.nonneg ((room_iff before).mpr h)
  | update entity id expected row =>
      cases expected with
      | none => trivial
      | some version => exact update_inRange entity id row (version_room_iff.mpr h)
  | next name =>
      refine next_inRange name ?_ ((sequence_room_iff name before).mpr h)
      have hmax : Int64.maxValue.toInt = 9223372036854775807 := by decide
      rw [toInt_sequenceAt]
      omega
  | _ => trivial

theorem overruns_of_not_hasRoom (h : ¬HasRoom before c) :
    Overruns c (afterAll before {}) ∧ after c (afterAll before {}) = afterAll before {} := by
  cases c with
  | insert entity row =>
      rcases insert_cases entity row (afterAll before {}) with ⟨hroom, -⟩ | ⟨-, hi⟩
      · exact absurd ((room_iff before).mp hroom) h
      · exact ⟨congrArg Prod.fst hi, congrArg Prod.snd hi⟩
  | update entity id expected row =>
      cases expected with
      | none => exact absurd trivial h
      | some version =>
          obtain ⟨rfl, hcurrent⟩ := Classical.not_imp.mp h
          have hu := update_overflow (Classical.not_not.mp hcurrent) row
          exact ⟨congrArg Prod.fst hu, congrArg Prod.snd hu⟩
  | next name =>
      rcases next_cases name (afterAll before {}) with ⟨hroom, -⟩ | ⟨-, hn⟩
      · exact absurd ((sequence_room_iff name before).mp hroom) h
      · exact ⟨congrArg Prod.fst hn, congrArg Prod.snd hn⟩
  | _ => exact absurd trivial h

theorem not_inRange_of_overruns (h : Overruns c s) : ¬InRange c s := by
  cases c with
  | insert entity row =>
      rintro ⟨stored, id, hstored, -⟩
      cases hstored.symm.trans h
  | update entity id expected row =>
      cases expected with
      | none => cases h
      | some version => exact fun hrange => hrange.1 h
  | next name =>
      rintro ⟨value, hvalue, -⟩
      cases hvalue.symm.trans h
  | _ => cases h

def versionsOf (row : Row) : List Int64 :=
  match Row.int? row Row.versionColumn with
  | .ok (some version) => [version]
  | _ => []

def Call.given : Call → List Int64
  | .update _ id none row => id :: versionsOf row
  | .update _ id (some _) _ => [id]
  | .writeExternally _ row =>
      match Row.int row Row.idColumn with
      | .ok id => id :: versionsOf row
      | .error _ => []
  | _ => []

theorem mem_versionsOf {row : Row} {version : Int64} :
    version ∈ versionsOf row ↔ Row.int? row Row.versionColumn = .ok (some version) := by
  unfold versionsOf
  split
  · rename_i v hv
    simp [hv, eq_comm]
  · rename_i hnone
    exact ⟨nofun, fun h => absurd h (hnone version)⟩

structure Below (n : Int) (s : Memory) : Prop where
  lastId : s.lastId.toInt ≤ n
  row : ∀ entity id row, s.tables.row? entity id = some row →
    ∀ i ∈ id :: versionsOf row, i.toInt ≤ n

variable {n m : Int} {t : Memory}

theorem Below.mono (h : Below n s) (htables : t.tables = s.tables) (hlast : t.lastId = s.lastId)
    (hle : n ≤ m) : Below m t := by
  refine ⟨?_, fun entity id row hrow i hi => ?_⟩
  · rw [hlast]
    exact Int.le_trans h.lastId hle
  · rw [htables] at hrow
    exact Int.le_trans (h.row entity id row hrow i hi) hle

theorem Below.put (h : Below n s) {entity : String} {id : Int64} {row : Row}
    (htables : t.tables = s.tables.put entity id row) (hlast : t.lastId.toInt ≤ m)
    (hrow : ∀ i ∈ id :: versionsOf row, i.toInt ≤ m) (hle : n ≤ m) : Below m t := by
  refine ⟨hlast, fun e j r hr i hi => ?_⟩
  rw [htables, RowFile.row?_put] at hr
  split at hr
  · rename_i hkey
    rw [hkey.2, ← Option.some.inj hr] at hi
    exact hrow i hi
  · exact Int.le_trans (h.row e j r hr i hi) hle

theorem toInt_max_le {a b : Int64} (ha : a.toInt ≤ n) (hb : b.toInt ≤ n) : (max a b).toInt ≤ n := by
  rw [Integer.max_eq_ite]
  split
  · exact hb
  · exact ha

theorem versionsOf_numbered (id : Int64) (row : Row) :
    versionsOf (numbered id row) = versionsOf row := by
  simp [versionsOf, Row.int?, Row.read?, Row.value, numbered, Row.idColumn, Row.versionColumn]

theorem versionsOf_versioned (id version : Int64) (row : Row) :
    versionsOf (versioned id version row) = [version] := by
  rw [versionsOf, int?_versioned]

theorem versionsOf_inserted {id v : Int64} {row : Row}
    (hv : v ∈ versionsOf (withVersionIfAny (numbered id row) 0)) : v = 0 := by
  unfold withVersionIfAny at hv
  split at hv
  · change v ∈ versionsOf (versioned id 0 row) at hv
    rw [versionsOf_versioned] at hv
    exact List.mem_singleton.mp hv
  · rename_i hnone
    have hget : (numbered id row).get? Row.versionColumn = none := by
      simpa [Keyed.contains] using hnone
    simp [versionsOf, Row.int?, Row.read?, Row.value, hget] at hv

theorem toInt_succ_le {a : Int64} (ha : a.toInt ≤ n) (hroom : n < Int64.maxValue.toInt) :
    (a + 1).toInt ≤ n + 1 := by
  rw [Integer.toInt_succ (Int64.lt_iff_toInt_lt.mpr (Int.lt_of_le_of_lt ha hroom))]
  exact Int.add_le_add_right ha 1

theorem Below.insert (h : Below n s) (hzero : 0 ≤ n) (hroom : n < Int64.maxValue.toInt)
    (entity : String) (row : Row) : Below (n + 1) (insert entity row s).2 := by
  have hid : (s.lastId + 1).toInt ≤ n + 1 := toInt_succ_le h.lastId hroom
  rw [insert_of_room entity row
    (Int64.lt_iff_toInt_lt.mpr (Int.lt_of_le_of_lt h.lastId hroom))]
  refine h.put rfl hid (List.forall_mem_cons.mpr ⟨hid, fun v hv => ?_⟩) (by omega)
  rw [versionsOf_inserted hv]
  exact Int.le_trans hzero (by omega)

theorem Below.update (h : Below n s) (hroom : n < Int64.maxValue.toInt) {entity : String}
    {id : Int64} {expected : Option Int64} {row : Row}
    (hgiven : ∀ i ∈ (Call.update entity id expected row).given, i.toInt ≤ n) :
    Below (n + 1) (update entity id expected row s).2 := by
  have hweak : ∀ {i : Int}, i ≤ n → i ≤ n + 1 := fun hi => by omega
  have hid : id.toInt ≤ n := by
    cases expected <;> exact hgiven id (List.mem_cons_self ..)
  have hlast : (max s.lastId id).toInt ≤ n + 1 := hweak (toInt_max_le h.lastId hid)
  cases expected with
  | none =>
      refine h.put rfl hlast (List.forall_mem_cons.mpr ⟨hweak hid, fun v hv => ?_⟩) (by omega)
      rw [← numbered, versionsOf_numbered] at hv
      exact hweak (hgiven v (List.mem_cons_of_mem id hv))
  | some version =>
      rcases update_checked entity id version row s with ⟨hcurrent, -, hu⟩ | ⟨fault, hu⟩
      · obtain ⟨old, hold, hread⟩ := exists_of_versionAt hcurrent
        have hversion : version.toInt ≤ n :=
          h.row entity id old hold version (List.mem_cons_of_mem _ (mem_versionsOf.mpr hread))
        rw [hu]
        refine h.put rfl hlast (List.forall_mem_cons.mpr ⟨hweak hid, fun v hv => ?_⟩) (by omega)
        rw [versionsOf_versioned, List.mem_singleton] at hv
        exact hv ▸ toInt_succ_le hversion hroom
      · rw [hu]
        exact h.mono rfl rfl (by omega)

theorem Below.writeExternally (h : Below n s) {entity : String} {row : Row}
    (hgiven : ∀ i ∈ (Call.writeExternally entity row).given, i.toInt ≤ n) :
    Below n (writeExternally entity row s).2 := by
  rw [Memory.writeExternally]
  cases hread : Row.int row Row.idColumn with
  | error fault => exact h
  | ok id =>
      rw [Call.given, hread] at hgiven
      have hid : id.toInt ≤ n := hgiven id (List.mem_cons_self ..)
      exact h.put rfl (toInt_max_le h.lastId hid) hgiven (Int.le_refl n)

theorem Below.step (h : Below n s) (hgiven : ∀ i ∈ c.given, i.toInt ≤ n) (hzero : 0 ≤ n)
    (hroom : n < Int64.maxValue.toInt) : Below (n + 1) (after c s) := by
  by_cases hsilent : c.isSilent = true
  · obtain ⟨htables, hlast⟩ := tables_after_silent hsilent s
    exact h.mono htables hlast (by omega)
  cases c with
  | insert entity row => exact h.insert hzero hroom entity row
  | update entity id expected row => exact h.update hroom hgiven
  | writeExternally entity row => exact (h.writeExternally hgiven).mono rfl rfl (by omega)
  | _ => exact absurd rfl hsilent

theorem below_start : Below 0 {} := ⟨Int.le_refl 0, fun _ _ _ h => by cases h⟩

theorem Below.run {calls : List Call} {most : Nat}
    (hgiven : ∀ c ∈ calls, ∀ i ∈ c.given, i.toInt ≤ most) (hfew : most + calls.length < 2 ^ 63) :
    Below (most + calls.length : Nat) (afterAll calls {}) := by
  induction calls using List.reverseRecOn with
  | nil => exact below_start.mono rfl rfl (Int.natCast_nonneg _)
  | append_singleton calls c ih =>
      obtain ⟨hcalls, hc⟩ := List.forall_mem_append.mp hgiven
      rw [List.length_append, List.length_singleton] at hfew ⊢
      have hbelow := ih hcalls (by omega)
      rw [afterAll_concat]
      have hlast : Int64.maxValue.toInt = 9223372036854775807 := by decide
      refine hbelow.step (fun i hi => ?_) (Int.natCast_nonneg _) (by omega)
      exact Int.le_trans (hc c (List.mem_singleton_self c) i hi) (by omega)

theorem hasRoom_of_given {most : Nat} (hgiven : ∀ d ∈ before, ∀ i ∈ d.given, i.toInt ≤ most)
    (hfew : most + before.length + 1 < 2 ^ 63) : HasRoom before c := by
  have hbelow := Below.run hgiven (by omega)
  have hlast : ¬Int64.maxValue.toInt ≤ (most + before.length : Nat) := by
    rw [show Int64.maxValue.toInt = 9223372036854775807 from by decide]
    omega
  cases c with
  | insert e r =>
      intro entity
      cases hrow : (afterAll before {}).tables.row? entity Int64.maxValue with
      | none => rfl
      | some row => exact absurd (hbelow.row _ _ _ hrow _ (List.mem_cons_self ..)) hlast
  | update entity id expected row =>
      cases expected with
      | none => trivial
      | some version =>
          rintro rfl hversion
          obtain ⟨old, hold, hread⟩ := exists_of_versionAt hversion
          have hmem := List.mem_cons_of_mem id (mem_versionsOf.mpr hread)
          exact hlast (hbelow.row _ _ _ hold _ hmem)
  | next name =>
      have hcount : before.countP (·.asks name) ≤ before.length := List.countP_le_length
      change before.countP (·.asks name) + 1 < 2 ^ 63
      omega
  | _ => trivial

theorem counters_exact (before : List Call) (c : Call) :
    (InRange c (afterAll before {}) ↔ HasRoom before c) ∧
      (Overruns c (afterAll before {}) ↔ ¬HasRoom before c) ∧
      (Overruns c (afterAll before {}) → after c (afterAll before {}) = afterAll before {}) ∧
      ∀ most : Nat, (∀ d ∈ before, ∀ i ∈ d.given, i.toInt ≤ most) →
        most + before.length + 1 < 2 ^ 63 → HasRoom before c := by
  have hrange : Overruns c (afterAll before {}) → ¬HasRoom before c :=
    fun h hroom => not_inRange_of_overruns h (inRange_of_hasRoom hroom)
  refine ⟨⟨fun h => ?_, inRange_of_hasRoom⟩,
    ⟨hrange, fun h => (overruns_of_not_hasRoom h).1⟩,
    fun h => (overruns_of_not_hasRoom (hrange h)).2, fun _ => hasRoom_of_given⟩
  by_contra hroom
  exact not_inRange_of_overruns (overruns_of_not_hasRoom hroom).1 h

def raises : List Call := [
  .insert "page" (.ofList [("version", .int 5)]),
  .writeExternally "tag" (.ofList [("id", .int 40), ("version", .int (-3))]),
  .update "tag" 40 (some (-3)) .empty,
  .update "page" 52 none (.ofList [("version", .int 7)]),
  .next "pages",
  .update "page" 52 (some 7) .empty]

theorem counters_exact_of_raises :
    (∀ c ∈ raises, ∀ i ∈ c.given, i.toInt ≤ (52 : Nat)) ∧ 52 + raises.length + 1 < 2 ^ 63 ∧
      InRange (.update "page" 52 (some 8) .empty) (afterAll raises {}) ∧
      InRange (.insert "tag" .empty) (afterAll raises {}) ∧
      InRange (.next "pages") (afterAll raises {}) := by
  have hall : (raises.flatMap Call.given).all (fun i => decide (i.toInt ≤ (52 : Nat))) = true := by
    decide +kernel
  have hgiven : ∀ c ∈ raises, ∀ i ∈ c.given, i.toInt ≤ (52 : Nat) := fun c hc i hi =>
    of_decide_eq_true (List.all_eq_true.mp hall i (List.mem_flatMap_of_mem hc hi))
  have hfew : 52 + raises.length + 1 < 2 ^ 63 := by decide
  have hanswered : ∀ c, InRange c (afterAll raises {}) := by
    intro c
    obtain ⟨hrange, -, -, hroom⟩ := counters_exact raises c
    exact hrange.mpr (hroom 52 hgiven hfew)
  exact ⟨hgiven, hfew, hanswered _, hanswered _, hanswered _⟩

def lastRow : Row := .ofList [("id", .int Int64.maxValue), ("version", .int Int64.maxValue)]

theorem counters_overrun :
    let s := afterAll [.writeExternally "page" lastRow] {}
    insert "page" .empty s = (.error .overflow, s) ∧
      update "page" Int64.maxValue (some Int64.maxValue) .empty s = (.error .overflow, s) ∧
      ¬InRange (.insert "page" .empty) s ∧
      ¬InRange (.update "page" Int64.maxValue (some Int64.maxValue) .empty) s := by
  intro s
  have hinsert : insert "page" .empty s = (.error .overflow, s) := by decide +kernel
  have hupdate : update "page" Int64.maxValue (some Int64.maxValue) .empty s =
      (.error .overflow, s) := by decide +kernel
  exact ⟨hinsert, hupdate, not_inRange_of_overruns (congrArg Prod.fst hinsert),
    not_inRange_of_overruns (congrArg Prod.fst hupdate)⟩

end RecordQuery.Memory
