import Mathlib.Tactic.Common
import RecordQuery.Data.Keyed

namespace RecordQuery.Keyed

variable {κ α : Type} [Ord κ]

theorem length_place_le (k : κ) (a : α) (l : List (κ × α)) :
    (place k a l).length ≤ l.length + 1 := by
  induction l with
  | nil => exact Nat.le_refl 1
  | cons x rest ih =>
      rw [place]
      split
      · exact Nat.le_refl _
      · exact Nat.le_succ _
      · exact Nat.succ_le_succ ih

variable [Std.LawfulEqOrd κ] [DecidableEq κ]

theorem filter_key {p : κ × α → Bool} {k : κ} {l : List (κ × α)}
    (hl : l.Pairwise fun x y => compare x.1 y.1 = .lt)
    (hp : ∀ x ∈ l, p x = true ↔ x.1 = k) :
    l.filter p = ((find k l).map (k, ·)).toList := by
  induction l with
  | nil => rfl
  | cons x rest ih =>
      obtain ⟨hx, hrest⟩ := List.pairwise_cons.mp hl
      obtain ⟨hpx, hp⟩ := List.forall_mem_cons.mp hp
      rw [find]
      by_cases heq : x.1 = k
      · have hnone : rest.filter p = [] := by
          refine List.filter_eq_nil_iff.mpr ?_
          intro y hy hpy
          have hlt := hx y hy
          rw [(hp y hy).mp hpy, heq, compare_eq_iff.mpr rfl] at hlt
          cases hlt
        rw [List.filter_cons_of_pos (hpx.mpr heq), hnone, if_pos (compare_eq_iff.mpr heq.symm)]
        simp [← heq]
      · rw [List.filter_cons_of_neg (mt hpx.mp heq), ih hrest hp,
          if_neg (mt compare_eq_iff.mp (Ne.symm heq))]

theorem filter_entries {p : κ × α → Bool} {k : κ} {m : Keyed κ α}
    (hp : ∀ x ∈ m.entries, p x = true ↔ x.1 = k) :
    m.entries.filter p = ((m.get? k).map (k, ·)).toList :=
  filter_key m.ascending hp

variable [Std.TransOrd κ]

theorem get?_foldl_put {l : List (κ × α)} {m : Keyed κ α} {k : κ} (h : k ∉ l.map (·.1)) :
    (l.foldl (fun m x => m.put x.1 x.2) m).get? k = m.get? k := by
  induction l generalizing m with
  | nil => rfl
  | cons x rest ih =>
      rw [List.map_cons, List.mem_cons, not_or] at h
      rw [List.foldl_cons, ih h.2, get?_put, if_neg h.1]

theorem get?_ofList_of_mem {l : List (κ × α)} {k : κ} {a : α} (hl : (l.map (·.1)).Nodup)
    (h : (k, a) ∈ l) : (ofList l).get? k = some a := by
  have hfold : ∀ m : Keyed κ α, (l.foldl (fun m x => m.put x.1 x.2) m).get? k = some a := by
    induction l with
    | nil => cases h
    | cons x rest ih =>
        intro m
        obtain ⟨hx, hrest⟩ := List.nodup_cons.mp hl
        rcases List.mem_cons.mp h with rfl | h
        · rw [List.foldl_cons, get?_foldl_put hx, get?_put, if_pos rfl]
        · exact ih hrest h _
  exact hfold empty

theorem mem_of_get?_ofList {l : List (κ × α)} {k : κ} {a : α} (h : (ofList l).get? k = some a) :
    (k, a) ∈ l := by
  have hfold : ∀ m : Keyed κ α, (l.foldl (fun m x => m.put x.1 x.2) m).get? k = some a →
      (k, a) ∈ l ∨ m.get? k = some a := by
    clear h
    induction l with
    | nil => exact fun _ h => .inr h
    | cons x rest ih =>
        intro m h
        rcases ih _ h with hmem | hput
        · exact .inl (List.mem_cons_of_mem _ hmem)
        · rw [get?_put] at hput
          split at hput
          · rename_i hk
            obtain rfl := Option.some.inj hput
            exact .inl (hk ▸ List.mem_cons_self ..)
          · exact .inr hput
  rcases hfold empty h with hmem | hempty
  · exact hmem
  · cases hempty

theorem contains_ofList {l : List (κ × α)} {k : κ} :
    (ofList l).contains k = true ↔ k ∈ l.map (·.1) := by
  have hfold : ∀ m : Keyed κ α, (l.foldl (fun m x => m.put x.1 x.2) m).contains k = true ↔
      k ∈ l.map (·.1) ∨ m.contains k = true := by
    induction l with
    | nil => simp
    | cons x rest ih =>
        intro m
        have hput : (m.put x.1 x.2).contains k = true ↔ k = x.1 ∨ m.contains k = true := by
          rw [contains, get?_put, contains]
          split <;> simp_all
        rw [List.foldl_cons, ih, hput, List.map_cons, List.mem_cons, or_left_comm, or_assoc]
  exact (hfold empty).trans (or_iff_left nofun)

omit [DecidableEq κ] [Std.TransOrd κ] in
theorem keys_nodup (m : Keyed κ α) : (m.entries.map (·.1)).Nodup := by
  rw [List.Nodup, List.pairwise_map]
  refine m.ascending.imp ?_
  intro x y hlt heq
  rw [heq, compare_eq_iff.mpr rfl] at hlt
  cases hlt

theorem ofList_entries (m : Keyed κ α) : ofList m.entries = m := by
  ext k a
  exact ⟨fun h => mem_entries_iff.mp (mem_of_get?_ofList h),
    fun h => get?_ofList_of_mem m.keys_nodup (mem_entries_iff.mpr h)⟩

theorem put_get? {m : Keyed κ α} {k : κ} {a : α} (h : m.get? k = some a) : m.put k a = m := by
  ext j
  rw [get?_put]
  split
  · rename_i hj
    rw [hj, h]
  · rfl

theorem put_erase (m : Keyed κ α) (k : κ) (a : α) : (m.erase k).put k a = m.put k a := by
  ext j
  rw [get?_put, get?_put]
  split
  · rfl
  · rename_i hj
    rw [get?_erase, if_neg hj]

theorem map_put {β : Type} (f : α → β) (m : Keyed κ α) (k : κ) (a : α) :
    (m.put k a).map f = (m.map f).put k (f a) := by
  ext j
  rw [get?_map, get?_put, get?_put, get?_map]
  split <;> rfl

theorem ofList_map {β : Type} (f : α → β) (l : List (κ × α)) :
    ofList (l.map fun x => (x.1, f x.2)) = (ofList l).map f := by
  have hfold : ∀ m : Keyed κ α,
      (l.map fun x => (x.1, f x.2)).foldl (fun m x => m.put x.1 x.2) (m.map f) =
        (l.foldl (fun m x => m.put x.1 x.2) m).map f := by
    induction l with
    | nil => exact fun _ => rfl
    | cons x rest ih =>
        intro m
        rw [List.map_cons, List.foldl_cons, List.foldl_cons, ← map_put]
        exact ih _
  exact hfold empty

end RecordQuery.Keyed
