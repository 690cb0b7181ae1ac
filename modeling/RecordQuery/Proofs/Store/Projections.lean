import Mathlib.Data.List.Nodup
import RecordQuery.Proofs.Data.Except
import RecordQuery.Proofs.Data.Keyed
import RecordQuery.Proofs.Data.Sorting
import RecordQuery.Proofs.Store.Run
import RecordQuery.Proofs.Store.Selection

namespace RecordQuery

theorem Row.int_congr {a b : Row} {column : String} (h : a.value column = b.value column) :
    a.int column = b.int column := by
  rw [Row.int, Row.read, Row.read, Row.read?, Row.read?, h]

namespace Memory

variable {m : Matcher} {q : Query} {s : Memory}

def ids (rows : List Row) : List Value := rows.map (Row.value · Row.idColumn)

theorem IdsRead.ids_nodup (h : IdsRead s) (entity : String) :
    (ids (s.tables.region entity).values).Nodup := by
  have hread : ∀ x ∈ (s.tables.region entity).entries, Row.int x.2 Row.idColumn = .ok x.1 :=
    fun x hx => h entity x.1 x.2 (Keyed.mem_entries_iff.mp hx)
  rw [ids, Keyed.values, List.map_map, List.Nodup, List.pairwise_map]
  refine (s.tables.region entity).ascending.imp_of_mem ?_
  intro a b ha hb hlt hsame
  have hids : a.1 = b.1 := by
    have hints := Row.int_congr hsame
    rw [hread a ha, hread b hb] at hints
    exact Except.ok.inj hints
  rw [hids, Keyed.compare_eq_iff.mpr rfl] at hlt
  cases hlt

theorem accepted_sublist {rows found : List Row} (h : accepted m rows = .ok found) :
    found.Sublist rows := by
  induction rows generalizing found with
  | nil =>
      obtain rfl := Except.ok.inj h
      exact .slnil
  | cons row rest ih =>
      rw [accepted] at h
      split at h
      · cases h
      · split at h
        · cases h
        · rename_i kept hkept
          obtain rfl := Except.ok.inj h
          split
          · exact (ih hkept).cons_cons row
          · exact (ih hkept).cons row

theorem row?_of_rows {q : Query} {s : Memory} {answers : List Row} (h : rows q s = .ok answers)
    {row : Row} (hrow : row ∈ answers) : ∃ id, s.tables.row? q.entity id = some row := by
  obtain ⟨found, hfound, rfl⟩ := map_eq_ok.mp h
  unfold select at hfound
  split at hfound
  · cases hfound
  · split at hfound
    · cases hfound
    · rename_i kept hkept
      obtain rfl := Except.ok.inj hfound
      have hsorted := (sortBy_perm _ kept).mem_iff.mp (mem_of_distinctIf (mem_of_page hrow))
      have hvalue := (accepted_sublist hkept).mem hsorted
      obtain ⟨⟨id, r⟩, hentry, rfl⟩ := List.mem_map.mp hvalue
      exact ⟨id, Keyed.mem_entries_iff.mp hentry⟩

structure Selects (q : Query) (s : Memory) (found : List Row) : Prop where
  rows : ∀ distinct, select { q with distinct := distinct } s = .ok found
  nodup : (ids found).Nodup
  length_le : found.length ≤ (s.tables.region q.entity).size

theorem select_cases (h : IdsRead s) (q : Query) :
    (∃ e, ∀ distinct, select { q with distinct := distinct } s = .error e) ∨
      ∃ found, Selects q s found := by
  cases hm : Matcher.of q.predicates q.bindings with
  | error fault =>
      refine .inl ⟨.ofQuery fault, fun distinct => ?_⟩
      simp only [select, Query.bindings] at hm ⊢
      rw [hm]
  | ok m =>
      cases hfound : accepted m (s.tables.region q.entity).values with
      | error fault =>
          refine .inl ⟨.ofQuery fault, fun distinct => ?_⟩
          simp only [select, Query.bindings] at hm ⊢
          rw [hm]
          simp only [hfound]
      | ok found =>
          have hsublist := accepted_sublist hfound
          have hsorted : (sorted q.orders found).Perm found := sortBy_perm _ found
          have hids : (ids (sorted q.orders found)).Nodup :=
            (hsorted.map _).nodup_iff.mpr ((h.ids_nodup q.entity).sublist (hsublist.map _))
          refine .inr ⟨sorted q.orders found, ?_, hids, ?_⟩
          · intro distinct
            simp only [select, Query.bindings] at hm ⊢
            rw [hm]
            simp only [hfound, distinctIf_of_nodup hids.of_map]
          · have hlength := hsublist.length_le
            rwa [Keyed.values, List.length_map, ← hsorted.length_eq] at hlength

theorem length_of_select (h : IdsRead s) {found : List Row} (hfound : select q s = .ok found) :
    found.length ≤ (s.tables.region q.entity).size := by
  rcases select_cases h q with ⟨e, hfails⟩ | ⟨selected, hselected⟩
  · cases hfound.symm.trans (hfails q.distinct)
  · obtain rfl := Except.ok.inj (hfound.symm.trans (hselected.rows q.distinct))
    exact hselected.length_le

theorem answers_of_select (h : IdsRead s) (q : Query) (distinct : Bool) :
    rows { q with distinct := distinct } s = (select q s).map q.page ∧
      column { q with distinct := distinct } Row.idColumn s =
        (select q s).map (fun found => ids (q.page found)) ∧
      count { q with distinct := distinct } s =
        (select q s).map (fun found => .ofNat found.length) := by
  rcases select_cases h q with ⟨e, hfails⟩ | ⟨found, hfound⟩
  · have hselect : select q s = .error e := hfails q.distinct
    rw [rows, column, count, hfails, hselect]
    exact ⟨rfl, rfl, rfl⟩
  · have hselect : select q s = .ok found := hfound.rows q.distinct
    have hdropped : distinctIf distinct (ids found) = ids found :=
      distinctIf_of_nodup hfound.nodup distinct
    rw [rows, column, count, hfound.rows, hselect]
    refine ⟨rfl, ?_, ?_⟩
    · have hpage : q.page (ids found) = ids (q.page found) := page_map ..
      exact congrArg Except.ok ((congrArg q.page hdropped).trans hpage)
    · refine congrArg (fun n => Except.ok (Int64.ofNat n)) ?_
      exact (congrArg List.length hdropped).trans (List.length_map _)

theorem size_region_after (c : Call) (s : Memory) (entity : String) :
    ((after c s).tables.region entity).size ≤ (s.tables.region entity).size + 1 := by
  rcases after_cases c s with ⟨htables, -⟩ | ⟨e, id, row, htables, -⟩
  · rw [htables]
    exact Nat.le_succ _
  · rw [htables, RowFile.region_put]
    split
    · rename_i he
      rw [he]
      exact Keyed.length_place_le id row _
    · exact Nat.le_succ _

theorem size_region_afterAll (calls : List Call) (s : Memory) (entity : String) :
    ((afterAll calls s).tables.region entity).size ≤
      (s.tables.region entity).size + calls.length := by
  induction calls generalizing s with
  | nil => exact Nat.le_refl _
  | cons c rest ih =>
      have hrest := ih (after c s)
      have hfirst := size_region_after c s entity
      rw [afterAll, List.length_cons]
      omega

theorem projections_agree (calls : List Call) (q : Query) :
    let s := afterAll calls {}
    let whole := rows { q with first := none, limit := none } s
    column q Row.idColumn s = (rows q s).map ids ∧
      count q s = whole.map (fun found => .ofNat found.length) ∧
      (calls.length < 2 ^ 63 → ∀ found, whole = .ok found →
        (Int64.ofNat found.length).toInt = found.length) ∧
      (∀ e, (rows q s = .error e ↔ column q Row.idColumn s = .error e) ∧
        (rows q s = .error e ↔ count q s = .error e)) ∧
      ∀ distinct, rows { q with distinct := distinct } s = rows q s ∧
        column { q with distinct := distinct } Row.idColumn s = column q Row.idColumn s ∧
        count { q with distinct := distinct } s = count q s := by
  intro s whole
  have hids : IdsRead s := idsRead_afterAll calls idsRead_start
  obtain ⟨hrows, hcolumn, hcount⟩ := answers_of_select hids q q.distinct
  have hwhole : whole = select q s := by
    have hpaged := (answers_of_select hids { q with first := none, limit := none } q.distinct).1
    refine hpaged.trans ?_
    change (select q s).map (page none none) = select q s
    cases select q s <;> rfl
  have hsame : ∀ distinct, rows { q with distinct := distinct } s = rows q s ∧
      column { q with distinct := distinct } Row.idColumn s = column q Row.idColumn s ∧
      count { q with distinct := distinct } s = count q s := by
    intro distinct
    obtain ⟨hrows', hcolumn', hcount'⟩ := answers_of_select hids q distinct
    exact ⟨hrows'.trans hrows.symm, hcolumn'.trans hcolumn.symm, hcount'.trans hcount.symm⟩
  have hnumber : calls.length < 2 ^ 63 → ∀ found, whole = .ok found →
      (Int64.ofNat found.length).toInt = found.length := by
    intro hcalls found hfound
    have hlength := length_of_select hids (hwhole.symm.trans hfound)
    have hsize := size_region_afterAll calls {} q.entity
    have hstart : (({} : Memory).tables.region q.entity).size = 0 := rfl
    rw [hstart, Nat.zero_add] at hsize
    exact Int64.toInt_ofNat_of_lt (Nat.lt_of_le_of_lt (Nat.le_trans hlength hsize) hcalls)
  refine ⟨?_, ?_, hnumber, ?_, hsame⟩
  · rw [hcolumn, hrows]
    cases select q s <;> rfl
  · rw [hcount, hwhole]
  · intro e
    rw [hrows, hcolumn, hcount]
    cases select q s <;> simp [Except.map]

def flagged : List Call := [
  .writeExternally "tag" (.ofList [("id", .bool true), ("label", .text "x")]),
  .insert "tag" (.ofList [("label", .text "x")]), .insert "tag" (.ofList [("label", .text "x")])]

def secondPage : Query :=
  { entity := "tag", orders := [⟨.field "label", .asc⟩, ⟨.field "id", .desc⟩], distinct := true,
    first := some 1, limit := some 5 }

theorem projections_agree_of_flagged :
    flagged.length < 2 ^ 63 ∧
      (rows secondPage (afterAll flagged {})).map ids = .ok [.int 2, .bool true] ∧
      column secondPage Row.idColumn (afterAll flagged {}) = .ok [.int 2, .bool true] ∧
      column { secondPage with distinct := false } Row.idColumn (afterAll flagged {}) =
        .ok [.int 2, .bool true] ∧
      (count secondPage (afterAll flagged {})).map Int64.toInt = .ok 3 := by
  have hfew : flagged.length < 2 ^ 63 := by decide
  obtain ⟨hcolumn, hcount, hnumber, -, hsame⟩ := projections_agree flagged secondPage
  have hrows : (rows secondPage (afterAll flagged {})).map ids = .ok [.int 2, .bool true] := by
    decide +kernel
  have hlengths : (rows { secondPage with first := none, limit := none }
      (afterAll flagged {})).map List.length = .ok 3 := by
    decide +kernel
  obtain ⟨found, hfound, hlength⟩ := map_eq_ok.mp hlengths
  refine ⟨hfew, hrows, hcolumn.trans hrows, (hsame false).2.1.trans (hcolumn.trans hrows), ?_⟩
  rw [hcount, hfound]
  refine congrArg Except.ok ((hnumber hfew found hfound).trans ?_)
  rw [hlength]
  rfl

end Memory

end RecordQuery
