import Mathlib.Tactic.Common
import RecordQuery.Query

namespace RecordQuery

variable {α : Type}

theorem Order.transCmp_compareBy {cmp : Expr → α → α → Ordering} {orders : List Order}
    (h : ∀ o ∈ orders, Std.TransCmp (cmp o.expr)) :
    Std.TransCmp fun a b => compareBy (fun e => cmp e a b) orders := by
  induction orders with
  | nil =>
      have hconst : (fun a b => compareBy (fun e => cmp e a b) []) =
          compareOn (fun _ : α => 0) := rfl
      rw [hconst]
      infer_instance
  | cons o rest ih =>
      have hrest := ih fun p hp => h p (List.mem_cons_of_mem _ hp)
      have hfirst := h o (List.mem_cons_self ..)
      have horient : Std.TransCmp fun a b => o.direction.orient (cmp o.expr a b) := by
        cases o.direction with
        | asc => exact hfirst
        | desc =>
            have hswap : (fun a b => Direction.desc.orient (cmp o.expr a b)) =
                fun a b => cmp o.expr b a := by
              funext a b
              exact Std.OrientedCmp.eq_swap.symm
            rw [hswap]
            exact Std.TransCmp.opposite
      have hlex : (fun a b => compareBy (fun e => cmp e a b) (o :: rest)) =
          compareLex (fun a b => o.direction.orient (cmp o.expr a b))
            (fun a b => compareBy (fun e => cmp e a b) rest) := rfl
      rw [hlex]
      infer_instance

theorem Order.compareBy_eq_eq {compare : Expr → Ordering} {orders : List Order} {o : Order}
    (ho : o ∈ orders) (h : compareBy compare orders = .eq) : compare o.expr = .eq := by
  induction orders with
  | nil => cases ho
  | cons p rest ih =>
      rw [compareBy, Ordering.then_eq_eq] at h
      rcases List.mem_cons.mp ho with rfl | ho
      · have hfirst := h.1
        cases hd : o.direction with
        | asc =>
            rw [hd] at hfirst
            exact hfirst
        | desc =>
            rw [hd] at hfirst
            exact Ordering.swap_eq_eq.mp hfirst
      · exact ih ho h.2

theorem eraseDups_of_nodup [BEq α] [LawfulBEq α] {items : List α} (h : items.Nodup) :
    items.eraseDups = items := by
  induction items with
  | nil => rfl
  | cons a rest ih =>
      obtain ⟨ha, hrest⟩ := List.nodup_cons.mp h
      have hfilter : rest.filter (fun b => !b == a) = rest := by
        refine List.filter_eq_self.mpr ?_
        intro b hb
        have hne : b ≠ a := by
          rintro rfl
          exact ha hb
        simp [hne]
      rw [List.eraseDups_cons, hfilter, ih hrest]

theorem mem_of_page {first limit : Option Nat} {items : List α} {x : α}
    (h : x ∈ page first limit items) : x ∈ items := by
  cases limit with
  | none => exact List.mem_of_mem_drop h
  | some n => exact List.mem_of_mem_drop (List.mem_of_mem_take h)

theorem page_map {β : Type} (f : α → β) (first limit : Option Nat) (items : List α) :
    page first limit (items.map f) = (page first limit items).map f := by
  cases limit with
  | none => rw [page, page, List.map_drop]
  | some n => rw [page, page, List.map_take, List.map_drop]

end RecordQuery
