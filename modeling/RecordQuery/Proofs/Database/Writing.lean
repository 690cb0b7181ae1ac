import Mathlib.Data.List.Nodup
import RecordQuery.Database.Change
import RecordQuery.Proofs.Data.Except
import RecordQuery.Proofs.Data.Keyed
import RecordQuery.Proofs.Database.Visiting
import RecordQuery.Proofs.Time.Reading
import RecordQuery.Store.Relational

namespace RecordQuery

open RecordQuery.Database RecordQuery.Time

namespace Value

def Tells : Value → Prop
  | time t => t.Storable
  | _ => True

structure ReadsAs (v w : Value) : Prop where
  null : v.isNull = w.isNull
  bool : v.asBool = w.asBool
  int : v.asInt = w.asInt
  time : v.asTime = w.asTime
  text : (∀ t, v ≠ .time t) → v.asText = w.asText

theorem readsAs_storageForm {v : Value} (h : v.Tells) : v.ReadsAs v.storageForm := by
  cases v with
  | null => exact ⟨rfl, rfl, rfl, rfl, fun _ => rfl⟩
  | bool b => exact ⟨rfl, by cases b <;> rfl, rfl, rfl, fun _ => rfl⟩
  | int n => exact ⟨rfl, rfl, rfl, rfl, fun _ => rfl⟩
  | text s => exact ⟨rfl, rfl, rfl, rfl, fun _ => rfl⟩
  | time t =>
      exact ⟨rfl, rfl, rfl, (Instant.read?_stored h).symm, fun hne => absurd rfl (hne t)⟩

end Value

namespace Database

theorem Cell.whole_numeric_whole (a : Number.Binary64) :
    (Cell.real a).whole.numeric.whole = (Cell.real a).whole := by
  have hcases : (Cell.real a).whole = .real a ∨ ∃ n, (Cell.real a).whole = .int n := by
    unfold whole
    simp only
    split
    · split
      · exact .inr ⟨_, rfl⟩
      · exact .inl rfl
    · exact .inl rfl
  rcases hcases with h | ⟨n, h⟩
  · rw [h]
    exact h
  · rw [h]
    rfl

theorem Cell.numeric_cases (s : String) :
    (Cell.text s).numeric = .text s ∨ (∃ n, (Cell.text s).numeric = .int n) ∨
      ∃ a, (Cell.text s).numeric = .real a := by
  unfold numeric
  simp only
  split
  · exact .inl rfl
  · split
    · exact .inr (.inr ⟨_, rfl⟩)
    · split
      · exact .inr (.inl ⟨_, rfl⟩)
      · exact .inr (.inr ⟨_, rfl⟩)

theorem Affinity.keep_keep (a : Affinity) (c : Cell) : a.keep (a.keep c) = a.keep c := by
  cases a with
  | any => rfl
  | text => cases c <;> rfl
  | integer =>
      cases c with
      | null => rfl
      | int n => rfl
      | blob n => rfl
      | real a => exact Cell.whole_numeric_whole a
      | text s =>
          change (Cell.text s).numeric.whole.numeric.whole = (Cell.text s).numeric.whole
          rcases Cell.numeric_cases s with h | ⟨n, h⟩ | ⟨a, h⟩
          · rw [h]
            exact congrArg Cell.whole h
          · rw [h]
            rfl
          · rw [h]
            exact Cell.whole_numeric_whole a

theorem Affinity.keep_int {a : Affinity} (h : a ≠ .text) (n : Int64) :
    a.keep (.int n) = .int n := by
  cases a with
  | any => rfl
  | integer => rfl
  | text => exact absurd rfl h

structure Column.Holds (c : Column) (cell : Cell) : Prop where
  kept : c.affinity.keep cell = cell
  reads : ∃ v, cell.value? = .ok v
  version : c.name = Row.versionColumn → cell = .null ∨ ∃ n, cell = .int n

namespace Layout

structure Proper (l : Layout) : Prop where
  plain : '\x00' ∉ l.name.toList
  key : l.key = some Row.idColumn
  distinct : (l.columns.map (folded ·.name)).Nodup
  apart : ∀ c ∈ l.columns, folded c.name ≠ folded Row.idColumn
  version : ∀ c ∈ l.columns, folded c.name = folded Row.versionColumn →
    c.name = Row.versionColumn ∧ c.affinity ≠ .text
  initial : ∀ c ∈ l.columns, c.Holds (c.affinity.keep c.initial)

structure Regular (l : Layout) : Prop where
  key : l.key = some Row.idColumn
  distinct : (l.columns.map (folded ·.name)).Nodup
  apart : ∀ c ∈ l.columns, folded c.name ≠ folded Row.idColumn

theorem Proper.regular {l : Layout} (h : l.Proper) : l.Regular := ⟨h.key, h.distinct, h.apart⟩

def Exact (l : Layout) (name : String) : Prop :=
  ∀ c, l.place? name = some (.column c) → c.name = name

def Takes (l : Layout) (name : String) (v : Value) : Prop :=
  match l.place? name with
  | none => True
  | some .number => False
  | some (.column c) =>
      c.name = name ∧ v.Tells ∧ (c.affinity.keep (.ofValue v)).value? = .ok v.storageForm

variable {l : Layout} {c : Column} {name : String} {row : Row}

theorem column_of_place? (h : l.place? name = some (.column c)) :
    c ∈ l.columns ∧ folded name = folded c.name := by
  unfold place? at h
  split at h
  · cases h
  · split at h
    · rename_i c' hfind
      obtain rfl := Place.column.inj (Option.some.inj h)
      have hsame := List.find?_some hfind
      exact ⟨List.mem_of_find?_eq_some hfind, eq_of_beq hsame⟩
    · split at h <;> cases h

theorem Takes.exact {v : Value} (h : l.Takes name v) : l.Exact name := by
  intro c hplace
  rw [Takes, hplace] at h
  exact h.1

theorem Takes.not_number {v : Value} (h : l.Takes name v) : l.place? name ≠ some .number := by
  intro hplace
  rw [Takes, hplace] at h
  exact h

namespace Regular

variable (h : l.Regular)

include h

theorem mem_names {name : String} :
    name ∈ l.names ↔ name = Row.idColumn ∨ ∃ c ∈ l.columns, c.name = name := by
  rw [names, h.key, Option.toList_some, List.singleton_append, List.mem_cons, List.mem_map]

theorem place?_id : l.place? Row.idColumn = some .number := by
  simp [place?, h.key, sameName]

theorem place?_column (hc : c ∈ l.columns) : l.place? c.name = some (.column c) := by
  have hkey : l.key.any (sameName c.name) = false := by
    simpa [h.key, sameName] using h.apart c hc
  have hfind : l.columns.find? (sameName c.name ·.name) = some c := by
    cases hfind : l.columns.find? (sameName c.name ·.name) with
    | none => exact absurd (List.find?_eq_none.mp hfind c hc) (by simp [sameName])
    | some d =>
        have hsame := List.find?_some hfind
        have hfolded : folded d.name = folded c.name := (eq_of_beq hsame).symm
        exact congrArg some (List.inj_on_of_nodup_map h.distinct
          (List.mem_of_find?_eq_some hfind) hc hfolded)
  rw [place?, hkey, hfind]
  rfl

theorem names_nodup : (l.columns.map (·.name)).Nodup := by
  have hdistinct : ((l.columns.map (·.name)).map folded).Nodup := by
    rw [List.map_map]
    exact h.distinct
  exact hdistinct.of_map

theorem column_record (hc : c ∈ l.columns) (n : Int64) (cell : Column → Cell) :
    (⟨n, l.record cell⟩ : Entry).column c = c.affinity.keep (cell c) := by
  have hmem : (c.name, c.affinity.keep (cell c)) ∈
      l.columns.map fun c => (c.name, c.affinity.keep (cell c)) :=
    List.mem_map_of_mem hc
  have hnames : ((l.columns.map fun c => (c.name, c.affinity.keep (cell c))).map (·.1)).Nodup := by
    rw [List.map_map]
    exact h.names_nodup
  rw [Entry.column, record, Keyed.get?_ofList_of_mem hnames hmem]
  rfl

theorem cellOf_column (hc : c ∈ l.columns) (e : Entry) :
    cellOf l e (.field c.name) = e.column c := by
  rw [cellOf, h.place?_column hc]
  rfl

theorem cellOf_id (e : Entry) : cellOf l e (.field Row.idColumn) = .int e.number := by
  rw [cellOf, h.place?_id]
  rfl

end Regular

theorem Proper.exact_version (h : l.Proper) : l.Exact Row.versionColumn := by
  intro c hplace
  obtain ⟨hc, hfolded⟩ := column_of_place? hplace
  exact (h.version c hc hfolded.symm).1

theorem Proper.exact_id (h : l.Proper) : l.Exact Row.idColumn := by
  intro c hplace
  rw [h.regular.place?_id] at hplace
  cases hplace

theorem Regular.version_ne_number (h : l.Regular) : l.place? Row.versionColumn ≠ some .number := by
  have hkey : l.key.any (sameName Row.versionColumn) = false := by
    rw [h.key]
    decide
  have hnumbers : numberNames.any (sameName Row.versionColumn) = false := by decide
  intro hplace
  rw [place?, hkey, hnumbers] at hplace
  split at hplace
  · rename_i hfalse
    cases hfalse
  · split at hplace <;> cases hplace

theorem Proper.exists_version (h : l.Proper) (hknown : l.place? Row.versionColumn ≠ none) :
    ∃ c ∈ l.columns, c.name = Row.versionColumn ∧ c.affinity ≠ .text := by
  cases hplace : l.place? Row.versionColumn with
  | none => exact absurd hplace hknown
  | some p =>
      cases p with
      | column c =>
          obtain ⟨hc, hfolded⟩ := column_of_place? hplace
          exact ⟨c, hc, h.version c hc hfolded.symm⟩
      | number => exact absurd hplace h.regular.version_ne_number

theorem given_of_name {p : Place} (h : ∀ x ∈ row.entries, l.place? x.1 = some p ↔ x.1 = name) :
    l.given (Relational.cellsOf row) p = ((row.get? name).map Cell.ofValue).toList := by
  have hfilter : row.entries.filter (fun x => l.place? x.1 == some p) =
      ((row.get? name).map (name, ·)).toList :=
    Keyed.filter_entries fun x hx => beq_iff_eq.trans (h x hx)
  rw [given, Relational.cellsOf, List.filter_map]
  change List.map _ (List.map _ (row.entries.filter fun x => l.place? x.1 == some p)) = _
  rw [hfilter]
  cases row.get? name <;> rfl

theorem given_cellsOf (h : l.Regular) (hrow : ∀ x ∈ row.entries, l.Exact x.1) (hc : c ∈ l.columns) :
    l.given (Relational.cellsOf row) (.column c) = ((row.get? c.name).map Cell.ofValue).toList := by
  refine given_of_name fun x hx => ⟨fun hplace => (hrow x hx c hplace).symm, ?_⟩
  intro hname
  rw [hname, h.place?_column hc]

theorem record_congr {f g : Column → Cell} (h : ∀ c ∈ l.columns, f c = g c) :
    l.record f = l.record g := by
  have hmap : (l.columns.map fun c => (c.name, c.affinity.keep (f c))) =
      l.columns.map fun c => (c.name, c.affinity.keep (g c)) := by
    refine List.map_congr_left fun c hc => ?_
    rw [h c hc]
  rw [record, record, hmap]

theorem given_append (cells others : Cells) (p : Place) :
    l.given (cells ++ others) p = l.given cells p ++ l.given others p := by
  rw [given, given, given, List.filter_append, List.map_append]

theorem given_eq_nil {cells : Cells} {p : Place} (h : ∀ x ∈ cells, l.place? x.1 ≠ some p) :
    l.given cells p = [] := by
  have hnone : cells.filter (fun x => l.place? x.1 == some p) = [] := by
    refine List.filter_eq_nil_iff.mpr ?_
    intro x hx
    rw [beq_iff_eq]
    exact h x hx
  rw [given, hnone]
  rfl

theorem given_singleton (name : String) (cell : Cell) (p : Place) :
    l.given [(name, cell)] p = if l.place? name = some p then [cell] else [] := by
  by_cases h : l.place? name = some p <;> simp [given, h]

def filled (l : Layout) (row : Row) (rest : Column → Cell) : Record :=
  l.record fun c => ((row.get? c.name).map Cell.ofValue).getD (rest c)

theorem record_cellsOf (h : l.Regular) (hrow : ∀ x ∈ row.entries, l.Exact x.1) :
    (l.record fun c => ((l.given (Relational.cellsOf row) (.column c)).head?).getD c.initial) =
      l.filled row Column.initial := by
  refine record_congr fun c hc => ?_
  rw [given_cellsOf h hrow hc]
  cases row.get? c.name <;> rfl

structure Suits (l : Layout) (row : Row) : Prop where
  takes : ∀ name v, row.get? name = some v → name ≠ Row.idColumn → l.Takes name v
  version : ∀ v, row.get? Row.versionColumn = some v → ∃ n, v = .int n

def Agrees (l : Layout) (e : Entry) (row : Row) : Prop :=
  ∀ name v, row.get? name = some v → name ∈ l.names ∧ v.Tells ∧
    (cellOf l e (.field name)).value? = .ok v.storageForm

def IsWhole (l : Layout) (row : Row) : Prop := ∀ name ∈ l.names, row.contains name

theorem Suits.exact (h : l.Suits row) (hl : l.Proper) {x : String × Value}
    (hx : x ∈ row.entries) : l.Exact x.1 := by
  by_cases hid : x.1 = Row.idColumn
  · exact hid ▸ hl.exact_id
  · exact (h.takes x.1 x.2 (Keyed.mem_entries_iff.mp hx) hid).exact

theorem Suits.number (h : l.Suits row) {x : String × Value} (hx : x ∈ row.entries)
    (hplace : l.place? x.1 = some .number) : x.1 = Row.idColumn := by
  by_contra hne
  exact (h.takes x.1 x.2 (Keyed.mem_entries_iff.mp hx) hne).not_number hplace

theorem Regular.column_filled (h : l.Regular) (hc : c ∈ l.columns) (n : Int64) (row : Row)
    (rest : Column → Cell) :
    (⟨n, l.filled row rest⟩ : Entry).column c =
      c.affinity.keep (((row.get? c.name).map Cell.ofValue).getD (rest c)) :=
  h.column_record hc n _

theorem Proper.takes_version (h : l.Proper) (n : Int64) :
    l.Takes Row.versionColumn (.int n) := by
  unfold Takes
  split
  · trivial
  · rename_i hplace
    exact absurd hplace h.regular.version_ne_number
  · rename_i c hplace
    obtain ⟨hc, hfolded⟩ := column_of_place? hplace
    obtain ⟨hname, haff⟩ := h.version c hc hfolded.symm
    exact ⟨hname, trivial, congrArg Cell.value? (Affinity.keep_int haff n)⟩

theorem Suits.agrees (h : l.Suits row) (hl : l.Proper)
    (hknown : ∀ name v, row.get? name = some v → name ≠ Row.idColumn → l.place? name ≠ none)
    (n : Int64) (rest : Column → Cell) :
    l.Agrees ⟨n, l.filled row rest⟩ (row.put Row.idColumn (.int n)) := by
  intro name v hv
  rw [Keyed.get?_put] at hv
  split at hv
  · rename_i hname
    obtain rfl := Option.some.inj hv
    rw [hname, hl.regular.cellOf_id]
    exact ⟨hl.regular.mem_names.mpr (.inl rfl), trivial, rfl⟩
  · rename_i hname
    have htakes := h.takes name v hv hname
    cases hplace : l.place? name with
    | none => exact absurd hplace (hknown name v hv hname)
    | some p =>
        cases p with
        | number => exact absurd hplace htakes.not_number
        | column c =>
            obtain ⟨hc, -⟩ := column_of_place? hplace
            rw [Takes, hplace] at htakes
            obtain ⟨rfl, htells, hkept⟩ := htakes
            refine ⟨?_, htells, ?_⟩
            · exact List.mem_append_right _ (List.mem_map_of_mem hc)
            · rw [hl.regular.cellOf_column hc, hl.regular.column_filled hc, hv]
              exact hkept

theorem Suits.holds (h : l.Suits row) (hl : l.Proper) (hc : c ∈ l.columns) (n : Int64)
    {rest : Column → Cell} (hrest : c.Holds (c.affinity.keep (rest c))) :
    c.Holds ((⟨n, l.filled row rest⟩ : Entry).column c) := by
  rw [hl.regular.column_filled hc]
  cases hv : row.get? c.name with
  | none => exact hrest
  | some v =>
      have hid : c.name ≠ Row.idColumn := fun hname => hl.apart c hc (congrArg folded hname)
      have htakes := h.takes c.name v hv hid
      rw [Takes, hl.regular.place?_column hc] at htakes
      refine ⟨Affinity.keep_keep _ _, ⟨_, htakes.2.2⟩, ?_⟩
      intro hversion
      obtain ⟨m, rfl⟩ := h.version v (hversion ▸ hv)
      have haff := (hl.version c hc (congrArg folded hversion)).2
      exact .inr ⟨m, Affinity.keep_int haff m⟩

end Layout

section

variable {l : Layout} {e : Entry} {name : String} {n m : Int64}

theorem truth_equal_int (hcell : cellOf l e (.field name) = .int n)
    (haff : affinityOf l (.field name) ≠ .text) :
    truth l e (.compare (.field name) .eq (.int m)) = .yes ↔ n = m := by
  have hcompare : (affinityOf l (.field name)).compare? (.int n) (.ofValue (.int m)) =
      some (compare n m) := by
    cases ha : affinityOf l (.field name) with
    | any => rfl
    | integer => rfl
    | text => exact absurd ha haff
  rw [truth, hcell, hcompare, Truth.ofOrdering_eq_yes]
  simp [CompareOp.holds]

theorem truth_equal_null (hcell : cellOf l e (.field name) = .null) (op : CompareOp) (v : Value) :
    truth l e (.compare (.field name) op v) = .unknown := by
  have hcompare : (affinityOf l (.field name)).compare? .null (.ofValue v) = none := by
    cases affinityOf l (.field name) with
    | any => rfl
    | integer => rfl
    | text => cases v <;> rfl
  rw [truth, hcell, hcompare]
  rfl

theorem truth_equal_id (hl : l.Regular) {id : Int64} :
    truth l e (.compare (.field Row.idColumn) .eq (.int id)) = .yes ↔ e.number = id := by
  refine truth_equal_int (hl.cellOf_id e) ?_
  rw [affinityOf, hl.place?_id]
  exact Affinity.noConfusion

theorem satisfies_aim (hl : l.Regular) {id : Int64} {version : Option Int64}
    (hversion : version.isSome → ∃ c ∈ l.columns, c.name = Row.versionColumn ∧
      c.affinity ≠ .text ∧ (e.column c = .null ∨ ∃ n, e.column c = .int n)) :
    satisfies l e (Session.aim id version) = true ↔ e.number = id ∧
      ∀ m, version = some m → cellOf l e (.field Row.versionColumn) = .int m := by
  rw [Session.aim, satisfies_cons, truth_equal_id hl]
  refine and_congr_right fun _ => ?_
  cases version with
  | none => exact iff_of_true rfl (by rintro m ⟨⟩)
  | some m =>
      obtain ⟨c, hc, hname, haff, hkind⟩ := hversion rfl
      have hcell : cellOf l e (.field Row.versionColumn) = e.column c :=
        hname ▸ hl.cellOf_column hc e
      have haffinity : affinityOf l (.field Row.versionColumn) ≠ .text := by
        rw [← hname, affinityOf, hl.place?_column hc]
        exact haff
      change satisfies l e [.compare (.field Row.versionColumn) .eq (.int m)] = true ↔ _
      have hnil : satisfies l e [] = true := rfl
      rw [satisfies_cons, and_iff_left hnil]
      rcases hkind with hnull | ⟨n, hn⟩
      · rw [truth_equal_null (hcell.trans hnull), hcell, hnull]
        simp
      · rw [truth_equal_int (hcell.trans hn) haffinity, hcell, hn]
        simp

end

namespace Table

variable {t after : Table} {cells : Cells} {n : Int64} {row : Row}

theorem eq_put_of_check {others : List Entry} {e : Entry} (h : t.check others e = .ok after) :
    after = t.put e := by
  unfold check at h
  split at h
  · cases h
  · split at h
    · cases h
    · split at h
      · cases h
      · exact (Except.ok.inj h).symm

theorem place?_of_stranger? {l : Layout} {names : List String} (h : l.stranger? names = none)
    {name : String} (hname : name ∈ names) : l.place? name ≠ none := by
  have hknown := List.find?_eq_none.mp h name hname
  intro hnone
  rw [hnone] at hknown
  exact hknown rfl

theorem insert_eq_ok {as : String} {counter : Int64} {draws : List Int64}
    (h : t.insert as counter draws cells = .ok (n, after)) :
    t.layout.stranger? (cells.map (·.1)) = none ∧ t.numberOf counter draws cells = .ok n ∧
      after = t.put ⟨n, t.layout.record fun c =>
        ((t.layout.given cells (.column c)).head?).getD c.initial⟩ := by
  unfold insert at h
  split at h
  · cases h
  · rename_i hstranger
    split at h
    · cases h
    · rename_i number hnumber
      simp only at h
      split at h
      · cases h
      · rename_i written hcheck
        obtain ⟨rfl, rfl⟩ := Prod.mk.inj (Except.ok.inj h)
        exact ⟨hstranger, hnumber, eq_put_of_check hcheck⟩

theorem insert_cellsOf (hl : t.layout.Regular) (hrow : ∀ x ∈ row.entries, t.layout.Exact x.1)
    {as : String} {counter : Int64} {draws : List Int64}
    (h : t.insert as counter draws (Relational.cellsOf row) = .ok (n, after)) :
    (∀ name v, row.get? name = some v → t.layout.place? name ≠ none) ∧
      t.numberOf counter draws (Relational.cellsOf row) = .ok n ∧
      after = t.put ⟨n, t.layout.filled row Column.initial⟩ := by
  obtain ⟨hstranger, hnumber, rfl⟩ := insert_eq_ok h
  refine ⟨?_, hnumber, ?_⟩
  · intro name v hv
    have hmem := List.mem_map_of_mem (f := fun x : String × Value => (x.1, Cell.ofValue x.2))
      (Keyed.mem_entries_iff.mpr hv)
    exact place?_of_stranger? hstranger (List.mem_map_of_mem (f := Prod.fst) hmem)
  · rw [Layout.record_cellsOf hl hrow]

theorem numberOf_cellsOf (hl : t.layout.Regular)
    (hrow : ∀ x ∈ row.entries, t.layout.place? x.1 = some .number → x.1 = Row.idColumn)
    {id : Int64} (hid : row.get? Row.idColumn = some (.int id)) (counter : Int64)
    (draws : List Int64) :
    t.numberOf counter draws (Relational.cellsOf row) = .ok id := by
  have hgiven : t.layout.given (Relational.cellsOf row) .number =
      ((row.get? Row.idColumn).map Cell.ofValue).toList := by
    refine Layout.given_of_name fun x hx => ⟨hrow x hx, ?_⟩
    intro hname
    rw [hname, hl.place?_id]
  rw [numberOf, hgiven, hid]
  rfl

theorem replace_eq_ok {e : Entry} (h : t.replace e cells = .ok after) :
    ∃ new, t.changed e cells = .ok new ∧
      after = { t with records := (t.records.erase e.number).put new.number new.record } := by
  unfold replace at h
  split at h
  · cases h
  · rename_i new hnew
    exact ⟨new, hnew, eq_put_of_check h⟩

theorem update_eq_ok {conditions : List Sql.Condition} {raised : Option String} {done : Bool}
    (h : t.update conditions raised cells = .ok (done, after)) :
    t.layout.stranger? (cells.map (·.1) ++ raised.toList) = none ∧
      ((done = false ∧ after = t ∧ ∀ e ∈ t.entries, ¬satisfies t.layout e conditions = true) ∨
        done = true ∧ ∃ e ∈ t.entries, satisfies t.layout e conditions = true ∧
          t.replace e (cells ++ raised.toList.map fun name =>
            (name, (cellOf t.layout e (.field name)).succ)) = .ok after) := by
  unfold update at h
  split at h
  · cases h
  · rename_i hstranger
    refine ⟨hstranger, ?_⟩
    split at h
    · rename_i hfind
      obtain ⟨rfl, rfl⟩ := Prod.mk.inj (Except.ok.inj h)
      exact .inl ⟨rfl, rfl, List.find?_eq_none.mp hfind⟩
    · rename_i e hfind
      obtain ⟨t', hreplace, hdone⟩ := map_eq_ok.mp h
      obtain ⟨rfl, rfl⟩ := Prod.mk.inj hdone
      have hsat := List.find?_some hfind
      exact .inr ⟨rfl, e, List.mem_of_find?_eq_some hfind, hsat, hreplace⟩

end Table

def bare (row : Row) : Row := (row.erase Row.idColumn).erase Row.versionColumn

theorem get?_of_bare {row : Row} {name : String} {v : Value} (h : (bare row).get? name = some v) :
    row.get? name = some v ∧ name ≠ Row.idColumn ∧ name ≠ Row.versionColumn := by
  rw [bare, Keyed.get?_erase, Keyed.get?_erase] at h
  split at h
  · cases h
  · rename_i hversion
    split at h
    · cases h
    · rename_i hid
      exact ⟨h, hid, hversion⟩

theorem get?_bare {row : Row} {name : String} (hid : name ≠ Row.idColumn)
    (hversion : name ≠ Row.versionColumn) : (bare row).get? name = row.get? name := by
  rw [bare, Keyed.get?_erase, if_neg hversion, Keyed.get?_erase, if_neg hid]

theorem bare_congr {row other : Row}
    (h : ∀ name, name ≠ Row.idColumn → name ≠ Row.versionColumn → row.get? name = other.get? name) :
    bare row = bare other := by
  ext name
  by_cases hversion : name = Row.versionColumn
  · simp [bare, hversion]
  · by_cases hid : name = Row.idColumn
    · simp [bare, hid]
    · rw [get?_bare hid hversion, get?_bare hid hversion, h name hid hversion]

theorem bare_put_id (row : Row) (v : Value) : bare (row.put Row.idColumn v) = bare row :=
  bare_congr fun name hid _ => by rw [Keyed.get?_put, if_neg hid]

theorem bare_put_version (row : Row) (v : Value) : bare (row.put Row.versionColumn v) = bare row :=
  bare_congr fun name _ hversion => by rw [Keyed.get?_put, if_neg hversion]

theorem Layout.Proper.suits_of_bare {l : Layout} (hl : l.Proper) {row : Row}
    (hrow : ∀ name v, (bare row).get? name = some v → l.Takes name v)
    (hversion : ∀ v, row.get? Row.versionColumn = some v → ∃ n, v = .int n) : l.Suits row := by
  refine ⟨?_, hversion⟩
  intro name v hv hid
  by_cases hname : name = Row.versionColumn
  · subst hname
    obtain ⟨n, rfl⟩ := hversion v hv
    exact hl.takes_version n
  · exact hrow name v ((get?_bare hid hname).trans hv)

def renewed (row : Row) : Option Int64 → Row
  | none => bare row
  | some version => (bare row).put Row.versionColumn (.int (version + 1))

theorem Layout.Proper.suits_renewed {l : Layout} (hl : l.Proper) {row : Row}
    (hrow : ∀ name v, (bare row).get? name = some v → l.Takes name v) (expected : Option Int64) :
    l.Suits (renewed row expected) := by
  have hbare : ∀ name v, (bare (bare row)).get? name = some v → l.Takes name v :=
    fun name v hv => hrow name v (get?_of_bare hv).1
  cases expected with
  | none => exact hl.suits_of_bare hbare fun v hv => absurd rfl (get?_of_bare hv).2.2
  | some m =>
      refine hl.suits_of_bare ?_ ?_
      · rwa [renewed, bare_put_version]
      · intro v hv
        rw [renewed, Keyed.get?_put, if_pos rfl] at hv
        exact ⟨m + 1, (Option.some.inj hv).symm⟩

def raised (expected : Option Int64) : Cells :=
  (expected.map fun version => (Row.versionColumn, Cell.int (version + 1))).toList

namespace Table

variable {t after : Table} {row : Row} {id : Int64} {expected : Option Int64}

section

variable (hl : t.layout.Regular) (hversion : t.layout.Exact Row.versionColumn)
  (hrow : ∀ name v, (bare row).get? name = some v →
    t.layout.Exact name ∧ t.layout.place? name ≠ some .number)

include hl hrow

theorem given_assigned {c : Column} (hc : c ∈ t.layout.columns) :
    t.layout.given (Relational.assigned row) (.column c) =
      (((bare row).get? c.name).map Cell.ofValue).toList :=
  Layout.given_cellsOf hl (fun x hx => (hrow x.1 x.2 (Keyed.mem_entries_iff.mp hx)).1) hc

theorem given_number (expected : Option Int64) :
    t.layout.given (Relational.assigned row ++ raised expected) .number = [] := by
  refine Layout.given_eq_nil ?_
  intro x hx
  rcases List.mem_append.mp hx with hx | hx
  · obtain ⟨y, hy, rfl⟩ := List.mem_map.mp hx
    exact (hrow y.1 y.2 (Keyed.mem_entries_iff.mp hy)).2
  · cases expected with
    | none => cases hx
    | some m =>
        obtain rfl := List.mem_singleton.mp hx
        exact hl.version_ne_number

include hversion

theorem given_last {c : Column} (hc : c ∈ t.layout.columns) (expected : Option Int64)
    (rest : Cell) :
    ((t.layout.given (Relational.assigned row ++ raised expected) (.column c)).getLast?).getD rest =
      (((renewed row expected).get? c.name).map Cell.ofValue).getD rest := by
  rw [Layout.given_append, given_assigned hl hrow hc]
  cases expected with
  | none => cases h : (bare row).get? c.name <;> simp [raised, renewed, Layout.given, h]
  | some m =>
      rw [renewed, raised, Option.map_some, Option.toList_some, Layout.given_singleton,
        Keyed.get?_put]
      by_cases hname : c.name = Row.versionColumn
      · have hplace := hl.place?_column hc
        rw [hname] at hplace
        rw [if_pos hplace, if_pos hname, List.getLast?_concat]
        rfl
      · have hplace : t.layout.place? Row.versionColumn ≠ some (.column c) :=
          fun hplace => hname (hversion c hplace)
        rw [if_neg hplace, if_neg hname, List.append_nil]
        cases (bare row).get? c.name <;> rfl

theorem changed_assigned (e : Entry) (expected : Option Int64) :
    t.changed e (Relational.assigned row ++ raised expected) =
      .ok ⟨e.number, t.layout.filled (renewed row expected) e.column⟩ := by
  have hrecord := Layout.record_congr (l := t.layout) fun c hc =>
    given_last hl hversion hrow hc expected (e.column c)
  rw [changed, given_number hl hrow]
  exact congrArg (fun record => Except.ok (Entry.mk e.number record)) hrecord

end

theorem raised_eq {e : Entry} (hexpected : expected ≠ some Int64.maxValue)
    (hversion : ∀ m, expected = some m → cellOf t.layout e (.field Row.versionColumn) = .int m) :
    ((expected.map fun _ => Row.versionColumn).toList.map
      fun name => (name, (cellOf t.layout e (.field name)).succ)) = raised expected := by
  cases expected with
  | none => rfl
  | some m =>
      have hm : m ≠ Int64.maxValue := fun hm => hexpected (congrArg some hm)
      change [(_, (cellOf t.layout e (.field Row.versionColumn)).succ)] = [_]
      rw [hversion m rfl, Cell.succ, if_neg hm]

theorem replace_raised (hl : t.layout.Regular) (hexact : t.layout.Exact Row.versionColumn)
    (hrow : ∀ name v, (bare row).get? name = some v →
      t.layout.Exact name ∧ t.layout.place? name ≠ some .number)
    {e : Entry} (hexpected : expected ≠ some Int64.maxValue)
    (hversion : ∀ m, expected = some m → cellOf t.layout e (.field Row.versionColumn) = .int m)
    (h : t.replace e (Relational.assigned row ++
      (expected.map fun _ => Row.versionColumn).toList.map
      fun name => (name, (cellOf t.layout e (.field name)).succ)) = .ok after) :
    after = t.put ⟨e.number, t.layout.filled (renewed row expected) e.column⟩ := by
  rw [raised_eq hexpected hversion] at h
  obtain ⟨new, hnew, rfl⟩ := replace_eq_ok h
  rw [changed_assigned hl hexact hrow] at hnew
  obtain rfl := Except.ok.inj hnew
  rw [Keyed.put_erase]
  rfl

theorem mem_entries {e : Entry} : e ∈ t.entries ↔ t.records.get? e.number = some e.record := by
  rw [← Keyed.mem_entries_iff, entries, List.mem_map]
  constructor
  · rintro ⟨x, hx, rfl⟩
    exact hx
  · exact fun h => ⟨_, h, rfl⟩

theorem place?_renewed
    (h : t.layout.stranger? ((Relational.assigned row).map (·.1) ++
      (expected.map fun _ => Row.versionColumn).toList) = none) {name : String} {v : Value}
    (hname : (renewed row expected).get? name = some v) : t.layout.place? name ≠ none := by
  have hbare : ∀ {v}, (bare row).get? name = some v → t.layout.place? name ≠ none := by
    intro v hv
    refine place?_of_stranger? h (List.mem_append_left _ ?_)
    have hmem := List.mem_map_of_mem (f := fun x : String × Value => (x.1, Cell.ofValue x.2))
      (Keyed.mem_entries_iff.mpr hv)
    exact List.mem_map_of_mem (f := Prod.fst) hmem
  cases expected with
  | none => exact hbare hname
  | some m =>
      rw [renewed, Keyed.get?_put] at hname
      split at hname
      · rename_i hversion
        subst hversion
        exact place?_of_stranger? h (List.mem_append_right _ (List.mem_singleton_self _))
      · exact hbare hname

theorem update_aim (hl : t.layout.Proper)
    (hholds : ∀ e ∈ t.entries, ∀ c ∈ t.layout.columns, c.Holds (e.column c))
    (hrow : ∀ name v, (bare row).get? name = some v → t.layout.Takes name v)
    (hexpected : expected ≠ some Int64.maxValue) {done : Bool}
    (h : t.update (Session.aim id expected) (expected.map fun _ => Row.versionColumn)
      (Relational.assigned row) = .ok (done, after)) :
    (done = false ∧ after = t) ∨ done = true ∧ ∃ record, t.records.get? id = some record ∧
      (∀ name v, (renewed row expected).get? name = some v → t.layout.place? name ≠ none) ∧
      after = t.put ⟨id, t.layout.filled (renewed row expected) (Entry.mk id record).column⟩ := by
  obtain ⟨hstranger, hupdate⟩ := update_eq_ok h
  rcases hupdate with ⟨rfl, rfl, -⟩ | ⟨rfl, e, he, hsat, hreplace⟩
  · exact .inl ⟨rfl, rfl⟩
  have hversion : expected.isSome → ∃ c ∈ t.layout.columns, c.name = Row.versionColumn ∧
      c.affinity ≠ .text ∧ (e.column c = .null ∨ ∃ n, e.column c = .int n) := by
    intro hsome
    obtain ⟨m, rfl⟩ := Option.isSome_iff_exists.mp hsome
    have hknown := place?_of_stranger? hstranger
      (List.mem_append_right _ (List.mem_singleton_self Row.versionColumn))
    obtain ⟨c, hc, hname, haff⟩ := hl.exists_version hknown
    exact ⟨c, hc, hname, haff, (hholds e he c hc).version hname⟩
  obtain ⟨rfl, hcell⟩ := (satisfies_aim hl.regular hversion).mp hsat
  have hexact : ∀ name v, (bare row).get? name = some v →
      t.layout.Exact name ∧ t.layout.place? name ≠ some .number :=
    fun name v hv => ⟨(hrow name v hv).exact, (hrow name v hv).not_number⟩
  have hafter := replace_raised hl.regular hl.exact_version hexact hexpected hcell hreplace
  exact .inr ⟨rfl, e.record, mem_entries.mp he, fun name v => place?_renewed hstranger, hafter⟩

end Table

end Database

end RecordQuery
