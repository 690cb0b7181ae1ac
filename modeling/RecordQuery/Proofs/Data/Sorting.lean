import Mathlib.Tactic.Common
import RecordQuery.Data.Sort

namespace RecordQuery

variable {α β : Type}

theorem settle_perm (less : α → α → Bool) (x : α) (l : List α) :
    (settle less x l).Perm (x :: l) := by
  induction l with
  | nil => exact .refl _
  | cons y rest ih =>
      rw [settle]
      split
      · exact (ih.cons y).trans (.swap x y rest)
      · exact .refl _

theorem foldl_settle_perm (less : α → α → Bool) (l sofar : List α) :
    (l.foldl (fun sorted x => settle less x sorted) sofar).Perm (l ++ sofar) := by
  induction l generalizing sofar with
  | nil => exact .refl _
  | cons x rest ih =>
      have hsettle : (rest ++ settle less x sofar).Perm (rest ++ x :: sofar) :=
        (settle_perm less x sofar).append_left rest
      exact (ih (settle less x sofar)).trans (hsettle.trans List.perm_middle)

theorem sortBy_perm (less : α → α → Bool) (l : List α) : (sortBy less l).Perm l := by
  have h := foldl_settle_perm less l []
  rw [List.append_nil] at h
  exact (List.reverse_perm _).trans h

theorem mem_sortBy {less : α → α → Bool} {l : List α} {a : α} : a ∈ sortBy less l ↔ a ∈ l :=
  (sortBy_perm less l).mem_iff

theorem settle_map (f : α → β) (less : β → β → Bool) (x : α) (l : List α) :
    settle less (f x) (l.map f) = (settle (fun a b => less (f a) (f b)) x l).map f := by
  induction l with
  | nil => rfl
  | cons y rest ih =>
      rw [List.map_cons, settle, settle, ih]
      split <;> rfl

theorem sortBy_map (f : α → β) (less : β → β → Bool) (l : List α) :
    sortBy less (l.map f) = (sortBy (fun a b => less (f a) (f b)) l).map f := by
  have hfold : ∀ sofar : List α,
      (l.map f).foldl (fun sorted x => settle less x sorted) (sofar.map f) =
        (l.foldl (fun sorted x => settle (fun a b => less (f a) (f b)) x sorted) sofar).map f := by
    induction l with
    | nil => exact fun _ => rfl
    | cons x rest ih =>
        intro sofar
        rw [List.map_cons, List.foldl_cons, List.foldl_cons, settle_map, ih]
  rw [sortBy, sortBy, List.map_reverse]
  exact congrArg List.reverse (hfold [])

section

variable {cmp : α → α → Ordering} [Std.TransCmp cmp]

def Stably (cmp : α → α → Ordering) (before : α → α → Prop) (a b : α) : Prop :=
  cmp a b = .lt ∨ cmp a b = .eq ∧ before a b

omit [Std.TransCmp cmp] in
theorem Stably.isLE {before : α → α → Prop} {a b : α} (h : Stably cmp before a b) :
    (cmp a b).isLE = true := by
  rcases h with h | ⟨h, -⟩
  · exact Ordering.isLE_of_eq_lt h
  · exact Ordering.isLE_of_eq_eq h

theorem settle_stably {before : α → α → Prop} {x : α} {l : List α}
    (h : l.Pairwise fun a b => Stably cmp before b a) (hx : ∀ y ∈ l, before y x) :
    (settle (fun a b => cmp a b == .lt) x l).Pairwise fun a b => Stably cmp before b a := by
  induction l with
  | nil => simp [settle]
  | cons y rest ih =>
      obtain ⟨hy, hrest⟩ := List.pairwise_cons.mp h
      obtain ⟨hyx, hx⟩ := List.forall_mem_cons.mp hx
      rw [settle]
      split
      · rename_i hlt
        refine List.pairwise_cons.mpr ⟨?_, ih hrest hx⟩
        intro z hz
        rcases List.mem_cons.mp ((settle_perm _ x rest).mem_iff.mp hz) with rfl | hz
        · exact .inl (eq_of_beq hlt)
        · exact hy z hz
      · rename_i hge
        have hle : (cmp y x).isLE = true := by
          cases hc : cmp x y with
          | lt => simp [hc] at hge
          | eq => exact Ordering.isLE_of_eq_eq (Std.OrientedCmp.eq_symm hc)
          | gt => exact Ordering.isLE_of_eq_lt (Std.OrientedCmp.gt_iff_lt.mp hc)
        -- an element below `y` is below `x` too, and tied with `x` only if it came first
        have hbelow : ∀ z, (cmp z y).isLE = true → before z x → Stably cmp before z x := by
          intro z hz hzx
          have hzle : (cmp z x).isLE = true := Std.TransCmp.isLE_trans hz hle
          cases hc : cmp z x with
          | lt => exact .inl hc
          | eq => exact .inr ⟨hc, hzx⟩
          | gt =>
              rw [hc] at hzle
              cases hzle
        refine List.pairwise_cons.mpr ⟨?_, h⟩
        intro z hz
        rcases List.mem_cons.mp hz with rfl | hz
        · exact hbelow z (Ordering.isLE_of_eq_eq Std.ReflCmp.compare_self) hyx
        · exact hbelow z (hy z hz).isLE (hx z hz)

theorem sortBy_stably {before : α → α → Prop} {l : List α} (h : l.Pairwise before) :
    (sortBy (fun a b => cmp a b == .lt) l).Pairwise (Stably cmp before) := by
  have hfold : ∀ rest sofar : List α, rest.Pairwise before →
      (∀ x ∈ rest, ∀ y ∈ sofar, before y x) →
      (sofar.Pairwise fun a b => Stably cmp before b a) →
      (rest.foldl (fun sorted x => settle (fun a b => cmp a b == .lt) x sorted) sofar).Pairwise
        fun a b => Stably cmp before b a := by
    intro rest
    induction rest with
    | nil => exact fun _ _ _ hsofar => hsofar
    | cons x rest ih =>
        intro sofar hrest hbefore hsofar
        obtain ⟨hx, hrest⟩ := List.pairwise_cons.mp hrest
        obtain ⟨hxs, hbefore⟩ := List.forall_mem_cons.mp hbefore
        refine ih _ hrest ?_ (settle_stably hsofar hxs)
        intro z hz y hy
        rcases List.mem_cons.mp ((settle_perm _ x sofar).mem_iff.mp hy) with rfl | hy
        · exact hx z hz
        · exact hbefore z hz y hy
  exact List.pairwise_reverse.mpr (hfold l [] h (by simp) .nil)

theorem sortBy_pairwise (l : List α) :
    (sortBy (fun a b => cmp a b == .lt) l).Pairwise fun a b => (cmp a b).isLE = true := by
  have hbefore : l.Pairwise fun _ _ => True := List.pairwise_of_forall fun _ _ => trivial
  exact (sortBy_stably hbefore).imp Stably.isLE

theorem sortBy_eq_of_perm {l r : List α} (h : l.Perm r)
    (hdistinct : ∀ a ∈ l, ∀ b ∈ l, cmp a b = .eq → a = b) :
    sortBy (fun a b => cmp a b == .lt) l = sortBy (fun a b => cmp a b == .lt) r := by
  have hperm : (sortBy (fun a b => cmp a b == .lt) l).Perm (sortBy (fun a b => cmp a b == .lt) r) :=
    (sortBy_perm _ l).trans (h.trans (sortBy_perm _ r).symm)
  refine hperm.eq_of_pairwise ?_ (sortBy_pairwise l) (sortBy_pairwise r)
  intro a b ha hb hab hba
  exact hdistinct a (mem_sortBy.mp ha) b (h.mem_iff.mpr (mem_sortBy.mp hb))
    (Std.OrientedCmp.isLE_antisymm hab hba)

end

end RecordQuery
