import Mathlib.Data.List.Perm.Basic
import Mathlib.Order.Lattice
import RecordQuery.Proofs.Predicate.Acceptance

namespace RecordQuery

namespace Truth

def rank : Truth → Nat
  | no => 0
  | unknown => 1
  | yes => 2

theorem rank_injective : Function.Injective rank := by
  intro a b h
  cases a <;> cases b <;> first | rfl | cases h

instance : LinearOrder Truth := LinearOrder.lift' rank rank_injective

variable (a b : Truth)

theorem both_eq_min : a.both b = min a b := by
  cases a <;> cases b <;> rfl

theorem either_eq_max : a.either b = max a b := by
  cases a <;> cases b <;> rfl

theorem min_yes : min a yes = a := by
  cases a <;> rfl

theorem yes_min : min yes a = a := by
  cases a <;> rfl

theorem max_no : max a no = a := by
  cases a <;> rfl

theorem no_max : max no a = a := by
  cases a <;> rfl

theorem negate_min : (min a b).negate = max a.negate b.negate := by
  rw [← both_eq_min, ← either_eq_max, negate_both]

theorem negate_max : (max a b).negate = min a.negate b.negate := by
  rw [← both_eq_min, ← either_eq_max, negate_either]

end Truth

namespace Predicate

section Value

variable (value : Predicate → Truth)

mutual

def kleene : Predicate → Truth
  | negate inner => (kleene inner).negate
  | all items => least items
  | any items => greatest items
  | leaf => value leaf

def least : List Predicate → Truth
  | [] => .yes
  | p :: rest => min (kleene p) (least rest)

def greatest : List Predicate → Truth
  | [] => .no
  | p :: rest => max (kleene p) (greatest rest)

end

variable {value} {items others : List Predicate}

theorem least_append :
    least value (items ++ others) = min (least value items) (least value others) := by
  induction items with
  | nil => rw [List.nil_append, least, Truth.yes_min]
  | cons p rest ih => rw [List.cons_append, least, least, ih, min_assoc]

theorem greatest_append :
    greatest value (items ++ others) = max (greatest value items) (greatest value others) := by
  induction items with
  | nil => rw [List.nil_append, greatest, Truth.no_max]
  | cons p rest ih => rw [List.cons_append, greatest, greatest, ih, max_assoc]

theorem least_perm (h : items.Perm others) : least value items = least value others := by
  induction h with
  | nil => rfl
  | cons p _ ih => rw [least, least, ih]
  | swap p q rest => rw [least, least, least, least, min_left_comm]
  | trans _ _ ih ih' => exact ih.trans ih'

theorem greatest_perm (h : items.Perm others) : greatest value items = greatest value others := by
  induction h with
  | nil => rfl
  | cons p _ ih => rw [greatest, greatest, ih]
  | swap p q rest => rw [greatest, greatest, greatest, greatest, max_left_comm]
  | trans _ _ ih ih' => exact ih.trans ih'

theorem negate_least : (least value items).negate = greatest value (items.map negate) := by
  induction items with
  | nil => rfl
  | cons p rest ih => rw [least, Truth.negate_min, ih, List.map_cons, greatest, kleene]

theorem negate_greatest : (greatest value items).negate = least value (items.map negate) := by
  induction items with
  | nil => rfl
  | cons p rest ih => rw [greatest, Truth.negate_max, ih, List.map_cons, least, kleene]

end Value

/-- One tree becomes another by changes in it, each at any place: the items of a conjunction or of a
disjunction get another order or another grouping, or a negation goes through to the items. -/
inductive Reshaped : Predicate → Predicate → Prop
  | refl (p : Predicate) : Reshaped p p
  | symm {p q : Predicate} : Reshaped p q → Reshaped q p
  | trans {p q r : Predicate} : Reshaped p q → Reshaped q r → Reshaped p r
  | reorder_all {items others : List Predicate} :
      items.Perm others → Reshaped (all items) (all others)
  | reorder_any {items others : List Predicate} :
      items.Perm others → Reshaped (any items) (any others)
  | regroup_all (front inner back : List Predicate) :
      Reshaped (all (front ++ all inner :: back)) (all (front ++ inner ++ back))
  | regroup_any (front inner back : List Predicate) :
      Reshaped (any (front ++ any inner :: back)) (any (front ++ inner ++ back))
  | single_all (p : Predicate) : Reshaped (all [p]) p
  | single_any (p : Predicate) : Reshaped (any [p]) p
  | negate_all (items : List Predicate) : Reshaped (negate (all items)) (any (items.map negate))
  | negate_any (items : List Predicate) : Reshaped (negate (any items)) (all (items.map negate))
  | within_negate {p q : Predicate} : Reshaped p q → Reshaped (negate p) (negate q)
  | within_all (front back : List Predicate) {p q : Predicate} :
      Reshaped p q → Reshaped (all (front ++ p :: back)) (all (front ++ q :: back))
  | within_any (front back : List Predicate) {p q : Predicate} :
      Reshaped p q → Reshaped (any (front ++ p :: back)) (any (front ++ q :: back))

namespace Reshaped

variable {p q : Predicate}

theorem kleene_eq (h : Reshaped p q) (value : Predicate → Truth) :
    p.kleene value = q.kleene value := by
  induction h with
  | refl p => rfl
  | symm _ ih => exact ih.symm
  | trans _ _ ih ih' => exact ih.trans ih'
  | reorder_all h => exact least_perm h
  | reorder_any h => exact greatest_perm h
  | regroup_all front inner back =>
      simp only [kleene, least_append, least, min_assoc]
  | regroup_any front inner back =>
      simp only [kleene, greatest_append, greatest, max_assoc]
  | single_all p => exact Truth.min_yes _
  | single_any p => exact Truth.max_no _
  | negate_all items => exact negate_least
  | negate_any items => exact negate_greatest
  | within_negate _ ih => rw [kleene, kleene, ih]
  | within_all front back _ ih => simp only [kleene, least_append, least, ih]
  | within_any front back _ ih => simp only [kleene, greatest_append, greatest, ih]

theorem closed_iff (h : Reshaped p q) (params : Parameters) :
    p.Closed params ↔ q.Closed params := by
  induction h with
  | refl p => rfl
  | symm _ ih => exact ih.symm
  | trans _ _ ih ih' => exact ih.trans ih'
  | reorder_all h => simp only [Closed, closedAll_iff, h.mem_iff]
  | reorder_any h => simp only [Closed, closedAll_iff, h.mem_iff]
  | regroup_all front inner back =>
      simp only [Closed, closedAll_iff, List.forall_mem_append, List.forall_mem_cons, and_assoc]
  | regroup_any front inner back =>
      simp only [Closed, closedAll_iff, List.forall_mem_append, List.forall_mem_cons, and_assoc]
  | single_all p => simp only [Closed, ClosedAll, and_true]
  | single_any p => simp only [Closed, ClosedAll, and_true]
  | negate_all items => simp only [Closed, closedAll_iff, List.forall_mem_map]
  | negate_any items => simp only [Closed, closedAll_iff, List.forall_mem_map]
  | within_negate _ ih => exact ih
  | within_all front back _ ih =>
      simp only [Closed, closedAll_iff, List.forall_mem_append, List.forall_mem_cons, ih]
  | within_any front back _ ih =>
      simp only [Closed, closedAll_iff, List.forall_mem_append, List.forall_mem_cons, ih]

end Reshaped

section Evaluation

variable {params : Parameters} {row : Row}

mutual

theorem meaning_eq_kleene : ∀ p : Predicate,
    p.meaning params row = p.kleene (meaning params row)
  | literal _ => rfl
  | compare .. => rfl
  | compareFields .. => rfl
  | among .. => rfl
  | isNull _ => rfl
  | isNotNull _ => rfl
  | like .. => rfl
  | negate inner => congrArg Truth.negate (meaning_eq_kleene inner)
  | all items => meaningAll_eq_least items
  | any items => meaningAny_eq_greatest items

theorem meaningAll_eq_least : ∀ items : List Predicate,
    meaningAll params row items = least (meaning params row) items
  | [] => rfl
  | p :: rest => by
      rw [meaningAll, least, Truth.both_eq_min, meaning_eq_kleene p, meaningAll_eq_least rest]

theorem meaningAny_eq_greatest : ∀ items : List Predicate,
    meaningAny params row items = greatest (meaning params row) items
  | [] => rfl
  | p :: rest => by
      rw [meaningAny, greatest, Truth.either_eq_max, meaning_eq_kleene p,
        meaningAny_eq_greatest rest]

end

mutual

theorem closed_of_mem_leaves {leaf : Predicate} : ∀ p : Predicate, p.Closed params →
    leaf ∈ p.leaves → leaf.Closed params
  | literal _, h, hleaf => List.mem_singleton.mp hleaf ▸ h
  | compare .., h, hleaf => List.mem_singleton.mp hleaf ▸ h
  | compareFields .., h, hleaf => List.mem_singleton.mp hleaf ▸ h
  | among .., h, hleaf => List.mem_singleton.mp hleaf ▸ h
  | isNull _, h, hleaf => List.mem_singleton.mp hleaf ▸ h
  | isNotNull _, h, hleaf => List.mem_singleton.mp hleaf ▸ h
  | like .., h, hleaf => List.mem_singleton.mp hleaf ▸ h
  | negate inner, h, hleaf => closed_of_mem_leaves inner h hleaf
  | all items, h, hleaf => closed_of_mem_leavesAll items h hleaf
  | any items, h, hleaf => closed_of_mem_leavesAll items h hleaf

theorem closed_of_mem_leavesAll {leaf : Predicate} : ∀ items : List Predicate,
    ClosedAll params items → leaf ∈ leavesAll items → leaf.Closed params
  | p :: rest, h, hleaf =>
      (List.mem_append.mp hleaf).elim (closed_of_mem_leaves p h.1)
        (closed_of_mem_leavesAll rest h.2)

end

theorem evaluate_kleene (params : Parameters) (row : Row) {p : Predicate}
    (hbound : ∀ name ∈ p.parameterNames, params.contains name = true) (hread : Readable p.leaves) :
    p.evaluate params row = .ok (p.kleene (meaning params row)) ∧
      (∀ leaf ∈ p.leaves, leaf.evaluate params row = .ok (leaf.meaning params row)) ∧
      ∀ q, p.Reshaped q → q.evaluate params row = p.evaluate params row := by
  have hclosed := closed_of_bound p hbound hread
  have hvalue : ∀ q : Predicate, q.Closed params →
      q.evaluate params row = .ok (q.kleene (meaning params row)) := by
    intro q hq
    rw [evaluate_eq row hq, meaning_eq_kleene]
  refine ⟨hvalue p hclosed, ?_, ?_⟩
  · intro leaf hleaf
    exact evaluate_eq row (closed_of_mem_leaves p hclosed hleaf)
  · intro q hq
    rw [hvalue p hclosed, hvalue q ((hq.closed_iff params).mp hclosed), hq.kleene_eq]

def nameless : Row := .ofList [("age", .int 20), ("name", .null)]

def ageLimit : Parameters := .ofList [("least", .int 18)]

def adultNamed : Predicate :=
  all [compare (.field "age") .ge (.param "least"),
    negate (any [isNull (.field "age"), like (.lower (.field "name")) "a!%%" (some '!')])]

theorem evaluate_kleene_nameless :
    (∀ name ∈ adultNamed.parameterNames, ageLimit.contains name = true) ∧
      Readable adultNamed.leaves ∧
      adultNamed.evaluate ageLimit nameless = .ok .unknown ∧
      (all [negate (like (.lower (.field "name")) "a!%%" (some '!')),
        negate (isNull (.field "age")),
        compare (.field "age") .ge (.param "least")]).evaluate ageLimit nameless =
          .ok .unknown := by
  have hbound : ∀ name ∈ adultNamed.parameterNames, ageLimit.contains name = true := by
    decide +kernel
  have hread : Readable adultNamed.leaves := by
    intro expr pattern escape hmem
    simp only [adultNamed, leaves, leavesAll, List.mem_append, List.mem_singleton, reduceCtorEq,
      List.not_mem_nil, or_false, false_or, like.injEq] at hmem
    obtain ⟨-, rfl, rfl⟩ := hmem
    decide +kernel
  obtain ⟨hvalue, -, hshape⟩ := evaluate_kleene ageLimit nameless hbound hread
  have hunknown : adultNamed.evaluate ageLimit nameless = .ok .unknown := by
    rw [hvalue]
    decide +kernel
  have hthrough : adultNamed.Reshaped
      (all [negate (like (.lower (.field "name")) "a!%%" (some '!')),
        negate (isNull (.field "age")), compare (.field "age") .ge (.param "least")]) := by
    refine .trans (.within_all [_] [] (.negate_any _)) ?_
    refine .trans (.regroup_all [_] _ []) (.reorder_all ?_)
    exact .trans (.cons _ (.swap _ _ _)) (.trans (.swap _ _ _) (.cons _ (.swap _ _ _)))
  exact ⟨hbound, hread, hunknown, (hshape _ hthrough).trans hunknown⟩

end Evaluation

end Predicate

end RecordQuery
