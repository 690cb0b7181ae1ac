import RecordQuery.Proofs.Filter.Admission

namespace RecordQuery

open RecordQuery.Time

namespace Value

theorem compare?_int_eq (v : Value) (n : Int64) :
    v.compare? (.int n) = v.asInt.map fun m => compare m n := by
  cases v <;> rfl

theorem compare?_time_eq (v : Value) (t : Instant) :
    v.compare? (.time t) = v.asTime.map fun s => compare s t := by
  cases v with
  | text s => cases h : Instant.read? s <;> simp [compare?, compareTimes, asTime, h]
  | null => rfl
  | bool b => rfl
  | int n => rfl
  | time s => rfl

end Value

namespace Bounds

variable {α β : Type}

def map (f : α → β) (r : Bounds α) : Bounds β where
  start := r.start.map f
  stop := r.stop.map f
  least := r.least.map f
  most := r.most.map f

theorem map_eq_unbounded {f : α → β} {r : Bounds α} : r.map f = .unbounded ↔ r = .unbounded := by
  obtain ⟨start, stop, least, most⟩ := r
  simp [map, unbounded]

variable [Ord α]

theorem ends_eq_none {r : Bounds α} : r.lower = none ∧ r.upper = none ↔ r = .unbounded := by
  obtain ⟨start, stop, least, most⟩ := r
  cases start <;> cases stop <;> cases least <;> cases most <;>
    simp [lower, upper, tighter, unbounded]

theorem lower_eq_upper [DecidableEq α] {r : Bounds α} (h : r.isSingle = true) :
    r.lower = r.upper := by
  unfold isSingle at h
  split at h
  · rename_i hlow hup
    rw [hlow, hup, of_decide_eq_true h]
  · cases h

theorem within_unbounded (a : α) : (unbounded : Bounds α).Within a :=
  ⟨nofun, nofun, nofun, nofun⟩

section Order

variable [Ord β] {f : α → β} (hf : ∀ a b, compare (f a) (f b) = compare a b) (r : Bounds α)

include hf

theorem lower_map : (r.map f).lower = r.lower.map f := by
  obtain ⟨start, stop, least, most⟩ := r
  cases start <;> cases least <;> simp [lower, map, tighter, larger, hf, apply_ite f]

theorem upper_map : (r.map f).upper = r.upper.map f := by
  obtain ⟨start, stop, least, most⟩ := r
  cases stop <;> cases most <;> simp [upper, map, tighter, smaller, hf, apply_ite f]

theorem isSingle_map [DecidableEq α] [DecidableEq β] (hinj : Function.Injective f) :
    (r.map f).isSingle = r.isSingle := by
  unfold isSingle
  rw [lower_map hf, upper_map hf]
  cases r.lower <;> cases r.upper <;> simp [hinj.eq_iff]

end Order

end Bounds

theorem Int32.toInt64_injective : Function.Injective Int32.toInt64 := by
  intro a b h
  exact Int32.le_antisymm (Int32.toInt64_le.mp (h ▸ Int64.le_refl _))
    (Int32.toInt64_le.mp (h ▸ Int64.le_refl _))

theorem Int32.compare_toInt64 (a b : Int32) : compare a.toInt64 b.toInt64 = compare a b := by
  simp only [compare, compareOfLessAndEq, Int32.toInt64_lt, Int32.toInt64_injective.eq_iff]

namespace Builder

variable {params : Parameters} {row : Row} {field : String}

theorem root_foldl_push (b : Builder) (added : List Predicate) :
    (added.foldl push b).root = .mk (b.root.direct ++ added) b.root.groups := by
  induction added generalizing b with
  | nil =>
      obtain ⟨locale, settings, ⟨direct, groups⟩⟩ := b
      simp [Group.direct, Group.groups]
  | cons p rest ih =>
      rw [List.foldl_cons, ih]
      simp [push, Group.push, Group.direct, Group.groups]

/-- Predicates are added to a builder, and they are all true of a row just if something holds. -/
def Adds (b after : Builder) (Holds : Row → Prop) : Prop :=
  ∃ added : List Predicate, after = added.foldl push b ∧
    ∀ params row, (∀ p ∈ added, p.evaluate params row = .ok .yes) ↔ Holds row

section

variable {α : Type} [Ord α] [DecidableEq α] (toValue : α → Value) (field : String)

theorem exists_added (range : Option (Bounds α)) :
    ∃ added : List Predicate, ∀ b : Builder,
      between toValue b field range = added.foldl push b := by
  have hcompare : ∀ (op : CompareOp) (value : Option Value), ∃ added : List Predicate,
      ∀ b : Builder, b.compare field op value = added.foldl push b := by
    intro op value
    cases value with
    | none => exact ⟨[], fun _ => rfl⟩
    | some v => exact ⟨[_], fun _ => rfl⟩
  cases range with
  | none => exact ⟨[], fun _ => rfl⟩
  | some r =>
      by_cases hsingle : r.isSingle = true
      · obtain ⟨added, hadded⟩ := hcompare .eq (r.lower.map toValue)
        exact ⟨added, fun b => by rw [between, if_pos hsingle, hadded]⟩
      · obtain ⟨lows, hlows⟩ := hcompare .ge (r.lower.map toValue)
        obtain ⟨highs, hhighs⟩ := hcompare .le (r.upper.map toValue)
        refine ⟨lows ++ highs, fun b => ?_⟩
        rw [between, if_neg hsingle, hlows, hhighs, List.foldl_append]

variable {toValue field}

theorem accepts_between_unread (hnone : ∀ a, (Row.value row field).compare? (toValue a) = none)
    {b : Builder} {r : Bounds α} :
    (between toValue b field (some r)).Accepts params row ↔
      b.Accepts params row ∧ r = .unbounded := by
  have hcompare : ∀ (b : Builder) (op : CompareOp) (o : Option α),
      (b.compare field op (o.map toValue)).Accepts params row ↔ b.Accepts params row ∧
        o = none := by
    intro b op o
    rw [accepts_compare]
    cases o with
    | none => simp
    | some a => simp [CompareOp.test, hnone, Truth.ofOrdering_eq_yes]
  rw [← Bounds.ends_eq_none, between]
  split
  · rename_i hsingle
    rw [hcompare, ← Bounds.lower_eq_upper hsingle, and_self]
  · rw [hcompare, hcompare, and_assoc]

theorem adds_between [Std.TransOrd α] {view : Value → Option α}
    (hview : ∀ v a, v.compare? (toValue a) = (view v).map fun x => Ord.compare x a) (b : Builder)
    (r : Bounds α) : b.Adds (between toValue b field (some r)) fun row =>
      r = .unbounded ∨ ∃ x, view (Row.value row field) = some x ∧ r.Within x := by
  obtain ⟨added, hadded⟩ := exists_added toValue field (some r)
  refine ⟨added, hadded b, fun params row => ?_⟩
  have haccepts : (∀ p ∈ added, p.evaluate params row = .ok .yes) ↔
      (between toValue b.nested field (some r)).Accepts params row := by
    rw [Accepts, predicates, hadded, root_foldl_push]
    simp [nested, Group.empty, Group.direct, Group.groups, Group.resolved, Group.resolvedAll]
  have hstart : b.nested.Accepts params row := List.forall_mem_nil _
  rw [haccepts]
  cases hx : view (Row.value row field) with
  | none =>
      rw [accepts_between_unread fun a => by rw [hview, hx, Option.map_none]]
      simp [hstart, hx]
  | some x =>
      rw [accepts_between fun a => by rw [hview, hx, Option.map_some]]
      simp only [hstart, hx, true_and, Option.some.injEq, forall_eq', exists_eq_left']
      constructor
      · exact .inr
      · rintro (rfl | h)
        · exact Bounds.within_unbounded x
        · exact h

end

theorem betweenSmallInts_eq (b : Builder) (r : Bounds Int32) :
    b.betweenSmallInts field (some r) = b.betweenInts field (some (r.map Int32.toInt64)) := by
  unfold betweenSmallInts betweenInts between
  simp only [Bounds.isSingle_map Int32.compare_toInt64 r Int32.toInt64_injective,
    Bounds.lower_map Int32.compare_toInt64, Bounds.upper_map Int32.compare_toInt64, Option.map_map]
  rfl

theorem between_exact (b : Builder) (field : String) :
    (∀ r : Bounds Int64, b.Adds (b.betweenInts field (some r)) fun row =>
      r = .unbounded ∨ ∃ n, (Row.value row field).asInt = some n ∧ r.Within n) ∧
    (∀ r : Bounds Int32, b.Adds (b.betweenSmallInts field (some r)) fun row =>
      r = .unbounded ∨ ∃ n, (Row.value row field).asInt = some n ∧
        (r.map Int32.toInt64).Within n) ∧
    ∀ r : Bounds Instant, b.Adds (b.betweenTimes field (some r)) fun row =>
      r = .unbounded ∨ ∃ t, (Row.value row field).asTime = some t ∧ r.Within t := by
  refine ⟨fun r => adds_between Value.compare?_int_eq b r, fun r => ?_,
    fun r => adds_between Value.compare?_time_eq b r⟩
  rw [betweenSmallInts_eq]
  simp only [← Bounds.map_eq_unbounded (f := Int32.toInt64) (r := r)]
  exact adds_between Value.compare?_int_eq b (r.map Int32.toInt64)

end Builder

end RecordQuery
