import RecordQuery.Proofs.Agreement.Twins
import RecordQuery.Proofs.Database.Visiting
import RecordQuery.Proofs.Store.Selection
import RecordQuery.Store.Relational

namespace RecordQuery

open RecordQuery.Database RecordQuery.Sql

variable {kind : String → Row.Kind}

namespace Memory

theorem select_eq {q : Query} (hclosed : Predicate.ClosedAll q.bindings q.predicates)
    (m : Memory) :
    select q m = .ok (distinctIf q.distinct (sorted q.orders
      ((m.tables.region q.entity).values.filter fun row =>
        Predicate.meaningAll q.bindings row q.predicates == .yes))) := by
  obtain ⟨patterns, hpatterns, hfaithful⟩ :=
    PatternTable.collectAll_faithful q.bindings PatternTable.faithful_nil q.predicates hclosed
  have haccepts : ∀ row, (Matcher.mk q.predicates q.bindings patterns).accepts row =
      .ok (Predicate.meaningAll q.bindings row q.predicates == .yes) :=
    fun row => Matcher.acceptsAll_eq hfaithful row hclosed
  rw [select, Matcher.of, hpatterns]
  simp only
  rw [accepted_eq fun row _ => haccepts row]

end Memory

section

variable {m : Memory} {t : Table} {q : Query} {twins : List (Twin t.layout kind)}

open Twin

theorem Twin.numbers_nodup (htwins : twins.map (·.entry) = t.entries) :
    (twins.map (·.entry.number)).Nodup := by
  have h := Database.numbers_nodup t
  rw [← htwins, List.map_map] at h
  exact h

theorem Twin.ids_rows (items : List (Twin l kind)) :
    (items.map (·.row)).map (Row.value · Row.idColumn) =
      items.map fun a => Value.int a.entry.number := by
  rw [List.map_map]
  exact List.map_congr_left fun a _ => a.alike.number

theorem Twin.ids_nodup {items : List (Twin l kind)} (h : (items.map (·.entry.number)).Nodup) :
    (items.map fun a => Value.int a.entry.number).Nodup := by
  rw [show (items.map fun a => Value.int a.entry.number) =
    (items.map (·.entry.number)).map Value.int from (List.map_map ..).symm]
  exact h.map fun _ _ hab => Value.int.inj hab

namespace Memory

variable (hrows : twins.map (·.row) = (m.tables.region q.entity).values)
  (hentries : twins.map (·.entry) = t.entries) (hq : q.Suits t.layout kind)

include hrows hentries hq

theorem select_eq_selected : select q m = .ok ((selected q twins).map (·.row)) := by
  have hsuits := (Predicate.suitsAll_iff t.layout kind q.bindings).mpr hq.predicates
  have hnumbers := numbers_selected_nodup (Twin.numbers_nodup hentries) q
  have hids := Twin.ids_nodup hnumbers
  rw [← Twin.ids_rows] at hids
  have hsorted : sorted q.orders ((m.tables.region q.entity).values.filter fun row =>
      Predicate.meaningAll q.bindings row q.predicates == .yes) =
        (selected q twins).map (·.row) := by
    rw [← hrows, List.filter_map, sorted, sortBy_map]
    rfl
  rw [select_eq (Predicate.closedAll_of_suits q.predicates hsuits), hsorted,
    distinctIf_of_nodup (List.Nodup.of_map _ hids)]

theorem column_eq_selected :
    column q Row.idColumn m =
      .ok ((q.page (selected q twins)).map fun a => .int a.entry.number) := by
  have hnumbers := numbers_selected_nodup (Twin.numbers_nodup hentries) q
  rw [column, select_eq_selected hrows hentries hq, Except.map, Twin.ids_rows,
    distinctIf_of_nodup (Twin.ids_nodup hnumbers), Query.page, page_map]
  rfl

theorem count_eq_selected : count q m = .ok (.ofNat (selected q twins).length) := by
  have hnumbers := numbers_selected_nodup (Twin.numbers_nodup hentries) q
  rw [count, select_eq_selected hrows hentries hq, Except.map, Twin.ids_rows,
    distinctIf_of_nodup (Twin.ids_nodup hnumbers), List.length_map]

end Memory

namespace Relational

def columnIn (t : Table) (q : Query) (name : String) : Except StoreError (List Value) := do
  let selection ← select q (.column name)
  (foundCells t selection name).mapM valueOf

def countIn (t : Table) (q : Query) : Except StoreError Int64 := do
  let selection ← select q .count
  return .ofNat (foundCount t selection)

theorem column_eq_columnIn {s : Relational} {name : String}
    (h : ∀ selection, select q (.column name) = .ok selection → tableOf selection s = .ok t) :
    column q name s = columnIn t q name := by
  rw [column, columnIn]
  cases hselect : select q (.column name) with
  | error e => rfl
  | ok selection =>
      change valuesOf selection name s = (foundCells t selection name).mapM valueOf
      rw [valuesOf, h selection hselect]
      rfl

theorem count_eq_countIn {s : Relational}
    (h : ∀ selection, select q .count = .ok selection → tableOf selection s = .ok t) :
    count q s = countIn t q := by
  rw [count, countIn]
  cases hselect : select q .count with
  | error e => rfl
  | ok selection =>
      change (do let t ← tableOf selection s; return Int64.ofNat (foundCount t selection)) = _
      rw [h selection hselect]
      rfl

theorem mapM_valueOf_ints (numbers : List Int64) :
    (numbers.map Cell.int).mapM valueOf = .ok (numbers.map Value.int) := by
  induction numbers with
  | nil => rfl
  | cons n rest ih =>
      rw [List.map_cons, List.mapM_cons, ih]
      rfl

theorem ids_entries (ht : Typed t.layout kind) (items : List (Twin t.layout kind)) :
    (items.map (·.entry)).map (cellOf t.layout · (.field Row.idColumn)) =
      (items.map (·.entry.number)).map Cell.int := by
  rw [List.map_map, List.map_map]
  refine List.map_congr_left fun a _ => ?_
  rw [Function.comp_apply, a.alike.cells _ ht.hasId, a.alike.number]
  rfl

variable (hentries : twins.map (·.entry) = t.entries) (ht : Typed t.layout kind)

include hentries ht

theorem ids_nodup {entries : List Entry}
    (h : entries.Perm ((twins.filter (accepts q)).map (·.entry))) :
    (entries.map (cellOf t.layout · (.field Row.idColumn))).Nodup := by
  have hnumbers := (Twin.numbers_nodup hentries).sublist
    (List.Sublist.map (·.entry.number) (List.filter_sublist (p := accepts q)))
  refine (h.map _).nodup_iff.mpr ?_
  rw [ids_entries ht]
  exact hnumbers.map fun _ _ hab => Cell.int.inj hab

variable (hq : q.Suits t.layout kind)

include hq

theorem select_eq_selected (projection : Projection) :
    ∃ selection, select q projection = .ok selection ∧ selection.orders = q.orders ∧
      selection.first = q.first ∧ selection.limit = q.limit ∧
      (found t selection).Perm ((twins.filter (accepts q)).map (·.entry)) := by
  obtain ⟨conditions, hconditions, hsatisfies⟩ := exists_conditions ht hq
  refine ⟨⟨q.entity, projection, q.distinct, conditions, q.orders, q.first, q.limit⟩, ?_, rfl,
    rfl, rfl, ?_⟩
  · rw [select, Select.ofQuery, hconditions]
    rfl
  · refine (found_perm t _).trans ?_
    rw [← hentries, List.filter_map]
    have haccepts : ((fun e => satisfies t.layout e conditions) ∘
        fun a : Twin t.layout kind => a.entry) = accepts q := funext hsatisfies
    rw [haccepts]

theorem columnIn_eq_selected :
    columnIn t q Row.idColumn =
      .ok ((q.page (selected q twins)).map fun a => .int a.entry.number) := by
  obtain ⟨selection, hselect, horders, hfirst, hlimit, hfound⟩ :=
    select_eq_selected hentries ht hq (.column Row.idColumn)
  let answer := fun e : Entry => cellOf t.layout e (.field Row.idColumn)
  let pairs := (found t selection).map fun e => (answer e, e)
  have hpairs : (if selection.distinct then firstOfEach pairs else pairs) = pairs := by
    split
    · refine firstOfEach_of_nodup ?_
      rw [List.map_map]
      exact ids_nodup hentries ht hfound
    · rfl
  have hsorted : (sortEntries t.layout selection.orders (·.2) pairs).map (·.1) =
      ((selected q twins).map (·.entry.number)).map Cell.int := by
    have hsort : sortEntries t.layout selection.orders (·.2) pairs =
        (sortEntries t.layout selection.orders id (found t selection)).map
          fun e => (answer e, e) := sortBy_map _ _ _
    rw [hsort, horders, sortEntries_eq (Twin.numbers_nodup hentries) hq hfound, List.map_map]
    exact ids_entries ht _
  have hanswers : foundCells t selection Row.idColumn =
      ((q.page (selected q twins)).map (·.entry.number)).map Cell.int := by
    change page selection.first selection.limit ((sortEntries t.layout selection.orders (·.2)
      (if selection.distinct then firstOfEach pairs else pairs)).map (·.1)) = _
    rw [hpairs, hsorted, hfirst, hlimit, page_map, page_map]
    rfl
  rw [columnIn, hselect]
  change (foundCells t selection Row.idColumn).mapM valueOf = _
  rw [hanswers, mapM_valueOf_ints, List.map_map]
  rfl

theorem countIn_eq_selected : countIn t q = .ok (.ofNat (selected q twins).length) := by
  obtain ⟨selection, hselect, -, -, -, hfound⟩ := select_eq_selected hentries ht hq .count
  have hlength : (found t selection).length = (selected q twins).length := by
    rw [hfound.length_eq, List.length_map, (selected_perm q twins).length_eq]
  have hcount : foundCount t selection = (selected q twins).length := by
    unfold foundCount
    split
    · have hids := hfound.map (cellOf t.layout · (.field Row.idColumn))
      rw [ids_entries ht] at hids
      have hpresent : ∀ c ∈ (found t selection).map (cellOf t.layout · (.field Row.idColumn)),
          (!c.isNull) = true := by
        intro c hc
        obtain ⟨n, -, rfl⟩ := List.mem_map.mp (hids.mem_iff.mp hc)
        rfl
      rw [eraseDups_of_nodup (ids_nodup hentries ht hfound), List.filter_eq_self.mpr hpresent,
        List.length_map, hlength]
    · exact hlength
  rw [countIn, hselect]
  change Except.ok (Int64.ofNat (foundCount t selection)) = _
  rw [hcount]

end Relational

end

end RecordQuery
