import Mathlib.Data.List.Pairwise
import RecordQuery.Proofs.Data.Integer
import RecordQuery.Proofs.Database.Accepting

namespace RecordQuery.Database.Table

variable {t : Table} {row : Row} {e : Entry} {counter n : Int64}
  {draws : List Int64}

def reached (t : Table) (counter : Int64) : Int64 :=
  let largest := t.largestNumber?.getD 0
  if t.layout.lasting then max largest counter else largest

theorem freshNumber_eq (t : Table) (counter : Int64) (draws : List Int64) :
    t.freshNumber counter draws =
      if t.reached counter = Int64.maxValue then
        if t.layout.lasting then .error .full
        else
          match draws.find? fun n => 0 < n && (t.records.get? n).isNone with
          | some n => .ok n
          | none => .error .full
      else .ok (t.reached counter + 1) := by
  have hagain (n : Int64) : max (max n counter) counter = max n counter :=
    Integer.max_eq_left (Integer.le_max_right n counter)
  unfold freshNumber reached
  cases t.largestNumber? with
  | none => rfl
  | some n =>
      cases t.layout.lasting with
      | false => rfl
      | true => simp [hagain]

theorem exists_largest (he : e ∈ t.entries) : ∃ n, t.largestNumber? = some n ∧ e.number ≤ n := by
  have hmem : e.number ∈ t.records.keys := t.entries_number ▸ List.mem_map_of_mem he
  have hsorted : t.records.keys.Pairwise (· ≤ ·) := by
    refine List.pairwise_map.mpr (t.records.ascending.imp fun hlt => ?_)
    exact Int64.le_of_lt (Std.compare_eq_lt.mp hlt)
  have hlast := hsorted.rel_getLast_of_rel_getLast_getLast hmem (Int64.le_refl _)
  exact ⟨_, List.getLast?_eq_some_getLast (List.ne_nil_of_mem hmem), hlast⟩

theorem number_le_reached (he : e ∈ t.entries) : e.number ≤ t.reached counter := by
  obtain ⟨n, hn, hle⟩ := exists_largest he
  rw [reached, hn]
  cases t.layout.lasting with
  | false => exact hle
  | true => exact Int64.le_trans hle (Integer.le_max_left n counter)

theorem get?_freshNumber (h : t.freshNumber counter draws = .ok n) : t.records.get? n = none := by
  rw [freshNumber_eq] at h
  split at h
  · split at h
    · cases h
    · split at h
      · rename_i m hfound
        obtain rfl := Except.ok.inj h
        have hfree := List.find?_some hfound
        simp only [Bool.and_eq_true, Option.isNone_iff_eq_none] at hfree
        exact hfree.2
      · cases h
  · rename_i hlast
    obtain rfl := Except.ok.inj h
    have hroom := Integer.lt_maxValue_of_ne hlast
    cases hrecord : t.records.get? (t.reached counter + 1) with
    | none => rfl
    | some record =>
        have hmem : (⟨t.reached counter + 1, record⟩ : Entry) ∈ t.entries :=
          mem_entries.mpr hrecord
        exact absurd (number_le_reached hmem) (Int64.not_le.mpr (Integer.lt_succ hroom))

section

variable (hroom : t.reached counter < Int64.maxValue)

include hroom

theorem freshNumber_eq_ok : t.freshNumber counter draws = .ok (t.reached counter + 1) := by
  rw [freshNumber_eq, if_neg (Int64.ne_of_lt hroom)]

theorem get?_fresh : t.records.get? (t.reached counter + 1) = none :=
  have hfresh : t.freshNumber counter [] = .ok (t.reached counter + 1) := freshNumber_eq_ok hroom
  get?_freshNumber hfresh

theorem insert_fresh (hl : t.layout.Regular)
    (hnames : ∀ name v, row.get? name = some v → name ∈ t.layout.names)
    (hid : row.get? Row.idColumn = none)
    (h : t.Allows ⟨t.reached counter + 1, t.layout.filled row Column.initial⟩) (as : String) :
    t.insert as counter draws (Relational.cellsOf row) = .ok (t.reached counter + 1,
      t.put ⟨t.reached counter + 1, t.layout.filled row Column.initial⟩) := by
  have hgiven : t.layout.given (Relational.cellsOf row) .number =
      ((row.get? Row.idColumn).map Cell.ofValue).toList := by
    refine Layout.given_of_name fun x hx => ⟨number_of_place? hl hnames hx, ?_⟩
    intro hname
    rw [hname, hl.place?_id]
  have hnumber : t.numberOf counter draws (Relational.cellsOf row) =
      .ok (t.reached counter + 1) := by
    rw [numberOf, hgiven, hid]
    exact freshNumber_eq_ok hroom
  exact insert_of_numberOf hl hnames hnumber (get?_fresh hroom) h as

end

end RecordQuery.Database.Table
