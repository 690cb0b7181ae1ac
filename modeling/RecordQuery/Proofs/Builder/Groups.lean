import RecordQuery.Proofs.Builder.Accepts

namespace RecordQuery

namespace Truth

def conj : List Truth → Truth := List.foldr both yes

def disj : List Truth → Truth := List.foldr either no

variable {ts us : List Truth}

theorem conj_perm (h : ts.Perm us) : conj ts = conj us := by
  induction h with
  | nil => rfl
  | cons t _ ih => exact congrArg t.both ih
  | swap t u rest =>
      change u.both (t.both (conj rest)) = t.both (u.both (conj rest))
      rw [← both_assoc, ← both_assoc, both_comm u t]
  | trans _ _ ih ih' => exact ih.trans ih'

theorem disj_perm (h : ts.Perm us) : disj ts = disj us := by
  induction h with
  | nil => rfl
  | cons t _ ih => exact congrArg t.either ih
  | swap t u rest =>
      change u.either (t.either (disj rest)) = t.either (u.either (disj rest))
      rw [← either_assoc, ← either_assoc, either_comm u t]
  | trans _ _ ih ih' => exact ih.trans ih'

theorem conj_singleton (t : Truth) : conj [t] = t := by
  cases t <;> rfl

theorem disj_singleton (t : Truth) : disj [t] = t := by
  cases t <;> rfl

end Truth

namespace Predicate

variable (params : Parameters) (row : Row)

def result (p : Predicate) : Truth :=
  match p.evaluate params row with
  | .ok t => t
  | .error _ => .unknown

theorem meaningAll_eq_conj (items : List Predicate) :
    meaningAll params row items = .conj (items.map (meaning params row)) := by
  induction items with
  | nil => rfl
  | cons p rest ih => exact congrArg (meaning params row p).both ih

theorem meaningAny_eq_disj (items : List Predicate) :
    meaningAny params row items = .disj (items.map (meaning params row)) := by
  induction items with
  | nil => rfl
  | cons p rest ih => exact congrArg (meaning params row p).either ih

theorem meaning_allOf (items : List Predicate) :
    (allOf items).meaning params row = .conj (items.map (meaning params row)) := by
  match items with
  | [] => rfl
  | [p] => exact (Truth.conj_singleton _).symm
  | p :: q :: rest => exact meaningAll_eq_conj params row (p :: q :: rest)

theorem meaning_anyOf (items : List Predicate) :
    (anyOf items).meaning params row = .disj (items.map (meaning params row)) := by
  match items with
  | [] => rfl
  | [p] => exact (Truth.disj_singleton _).symm
  | p :: q :: rest => exact meaningAny_eq_disj params row (p :: q :: rest)

mutual

def leaves : Predicate → List Predicate
  | negate inner => leaves inner
  | all items => leavesAll items
  | any items => leavesAll items
  | p => [p]

def leavesAll : List Predicate → List Predicate
  | [] => []
  | p :: rest => leaves p ++ leavesAll rest

end

variable {params row} {p : Predicate}

theorem result_eq_meaning (hp : p.Closed params) : p.result params row = p.meaning params row := by
  rw [result, evaluate_eq row hp]

theorem closed_of_compare {expr : Expr} {op : CompareOp} {operand : Operand} {t : Truth}
    (h : (compare expr op operand).evaluate params row = .ok t) :
    (compare expr op operand).Closed params := by
  cases hv : operand.value? params with
  | ok v => exact ⟨v, hv⟩
  | error e =>
      simp only [evaluate, PatternTable.collect, evaluateWith, hv] at h
      cases h

theorem closed_of_like {expr : Expr} {pattern : String} {escape : Option Char} {t : Truth}
    (h : (like expr pattern escape).evaluate params row = .ok t) :
    (like expr pattern escape).Closed params := by
  cases hts : Like.tokens? escape pattern.toList with
  | some ts => exact ⟨ts, hts⟩
  | none =>
      simp only [evaluate, PatternTable.collect, PatternTable.add, List.lookup_nil,
        PatternTable.tokens?, hts] at h
      cases h

mutual

theorem closed_of_leaves (row : Row) : ∀ p : Predicate,
    (∀ leaf ∈ p.leaves, ∃ t, leaf.evaluate params row = .ok t) → p.Closed params
  | literal _, _ => trivial
  | compare .., h => closed_of_compare (h _ (List.mem_singleton_self _)).choose_spec
  | compareFields .., _ => trivial
  | among .., _ => trivial
  | isNull _, _ => trivial
  | isNotNull _, _ => trivial
  | like .., h => closed_of_like (h _ (List.mem_singleton_self _)).choose_spec
  | negate inner, h => closed_of_leaves row inner h
  | all items, h => closedAll_of_leaves row items h
  | any items, h => closedAll_of_leaves row items h

theorem closedAll_of_leaves (row : Row) : ∀ items : List Predicate,
    (∀ leaf ∈ leavesAll items, ∃ t, leaf.evaluate params row = .ok t) → ClosedAll params items
  | [], _ => trivial
  | p :: rest, h =>
      ⟨closed_of_leaves row p fun leaf hleaf => h leaf (List.mem_append_left _ hleaf),
        closedAll_of_leaves row rest fun leaf hleaf => h leaf (List.mem_append_right _ hleaf)⟩

end

theorem leavesAll_eq_flatMap (items : List Predicate) : leavesAll items = items.flatMap leaves := by
  induction items with
  | nil => rfl
  | cons p rest ih => rw [leavesAll, List.flatMap_cons, ih]

theorem leaves_anyOf {items : List Predicate} (hne : items ≠ []) :
    (anyOf items).leaves = items.flatMap leaves := by
  match items with
  | [] => exact absurd rfl hne
  | [p] => simp [anyOf]
  | p :: q :: rest => exact leavesAll_eq_flatMap (p :: q :: rest)

theorem closed_allOf {items : List Predicate} (h : ∀ p ∈ items, p.Closed params) :
    (allOf items).Closed params := by
  match items with
  | [] => trivial
  | [p] => exact h p (List.mem_singleton_self p)
  | p :: q :: rest => exact (closedAll_iff params).mpr h

end Predicate

namespace Group

def join (g h : Group) : Group := mk (g.direct ++ h.direct) (g.groups ++ h.groups)

@[simp] theorem join_empty (g : Group) : g.join empty = g := by
  obtain ⟨direct, groups⟩ := g
  simp [join, empty, Group.direct, Group.groups]

@[simp] theorem empty_join (g : Group) : empty.join g = g := by
  obtain ⟨direct, groups⟩ := g
  rfl

theorem join_assoc (g h k : Group) : (g.join h).join k = g.join (h.join k) := by
  simp [join, Group.direct, Group.groups]

theorem push_eq_join (g : Group) (p : Predicate) : g.push p = g.join (mk [p] []) := by
  simp [push, join, Group.direct, Group.groups]

theorem attach_eq_join (g nested : Group) : g.attach nested = g.join (mk [] [nested]) := by
  simp [attach, join, Group.direct, Group.groups]

mutual

def members : Group → List Predicate
  | mk direct groups => direct ++ membersAll groups

def membersAll : List Group → List Predicate
  | [] => []
  | g :: rest => members g ++ membersAll rest

end

def leaves (g : Group) : List Predicate := g.members.flatMap Predicate.leaves

section

variable (value : Predicate → Truth)

mutual

def truths : Group → List Truth
  | mk direct groups => direct.map value ++ truthsAll groups

def truthsAll : List Group → List Truth
  | [] => []
  | g :: rest => if g.isEmpty then truthsAll rest else .disj (truths g) :: truthsAll rest

end

end

def reading (params : Parameters) (row : Row) (g : Group) : Truth :=
  .conj (g.truths (·.result params row))

mutual

theorem isEmpty_iff_resolved : ∀ g : Group, g.isEmpty = true ↔ g.resolved = []
  | mk direct groups => by
      rw [isEmpty, resolved, Bool.and_eq_true, List.isEmpty_iff, List.append_eq_nil_iff,
        isEmptyAll_iff_resolvedAll groups]

theorem isEmptyAll_iff_resolvedAll : ∀ groups : List Group,
    isEmptyAll groups = true ↔ resolvedAll groups = []
  | [] => by simp [isEmptyAll, resolvedAll]
  | g :: rest => by
      rw [isEmptyAll, resolvedAll, Bool.and_eq_true, isEmpty_iff_resolved g,
        isEmptyAll_iff_resolvedAll rest]
      by_cases h : g.resolved = [] <;> simp [h]

end

mutual

theorem leaves_resolved : ∀ g : Group, g.resolved.flatMap Predicate.leaves = g.leaves
  | mk direct groups => by
      rw [leaves, resolved, members, List.flatMap_append, List.flatMap_append,
        leaves_resolvedAll groups]

theorem leaves_resolvedAll : ∀ groups : List Group,
    (resolvedAll groups).flatMap Predicate.leaves =
      (membersAll groups).flatMap Predicate.leaves
  | [] => rfl
  | g :: rest => by
      have hg : g.resolved.flatMap Predicate.leaves = g.members.flatMap Predicate.leaves :=
        leaves_resolved g
      rw [resolvedAll, membersAll, List.flatMap_append, ← leaves_resolvedAll rest, ← hg]
      by_cases h : g.resolved = []
      · simp [h]
      · rw [if_neg (mt List.isEmpty_iff.mp h), List.flatMap_cons, Predicate.leaves_anyOf h]

end

section

variable (params : Parameters) (row : Row)

mutual

theorem map_meaning_resolved : ∀ g : Group,
    g.resolved.map (Predicate.meaning params row) = g.truths (Predicate.meaning params row)
  | mk direct groups => by
      rw [resolved, truths, List.map_append, map_meaning_resolvedAll groups]

theorem map_meaning_resolvedAll : ∀ groups : List Group,
    (resolvedAll groups).map (Predicate.meaning params row) =
      truthsAll (Predicate.meaning params row) groups
  | [] => rfl
  | g :: rest => by
      rw [resolvedAll, truthsAll, ← map_meaning_resolvedAll rest, ← map_meaning_resolved g]
      by_cases h : g.resolved = []
      · rw [if_pos ((isEmpty_iff_resolved g).mpr h), if_pos (List.isEmpty_iff.mpr h)]
      · rw [if_neg (mt (isEmpty_iff_resolved g).mp h), if_neg (mt List.isEmpty_iff.mp h),
          List.map_cons, Predicate.meaning_anyOf]

end

end

section

variable {value other : Predicate → Truth}

mutual

theorem truths_congr : ∀ g : Group, (∀ p ∈ g.members, value p = other p) →
    g.truths value = g.truths other
  | mk direct groups, h => by
      have hdirect : direct.map value = direct.map other :=
        List.map_congr_left fun p hp => h p (List.mem_append_left _ hp)
      rw [truths, truths, hdirect,
        truthsAll_congr groups fun p hp => h p (List.mem_append_right _ hp)]

theorem truthsAll_congr : ∀ groups : List Group, (∀ p ∈ membersAll groups, value p = other p) →
    truthsAll value groups = truthsAll other groups
  | [], _ => rfl
  | g :: rest, h => by
      rw [truthsAll, truthsAll, truths_congr g fun p hp => h p (List.mem_append_left _ hp),
        truthsAll_congr rest fun p hp => h p (List.mem_append_right _ hp)]

end

theorem truthsAll_append (groups others : List Group) :
    truthsAll value (groups ++ others) = truthsAll value groups ++ truthsAll value others := by
  induction groups with
  | nil => rfl
  | cons g rest ih =>
      rw [List.cons_append, truthsAll, truthsAll, ih]
      split <;> rfl

theorem membersAll_append (groups others : List Group) :
    membersAll (groups ++ others) = membersAll groups ++ membersAll others := by
  induction groups with
  | nil => rfl
  | cons g rest ih => rw [List.cons_append, membersAll, membersAll, ih, List.append_assoc]

theorem perm_middle {α : Type} (as bs cs ds : List α) :
    ((as ++ bs) ++ (cs ++ ds)).Perm ((as ++ cs) ++ (bs ++ ds)) := by
  simp only [List.append_assoc]
  refine List.Perm.append_left as ?_
  rw [← List.append_assoc, ← List.append_assoc]
  exact List.Perm.append_right ds List.perm_append_comm

theorem truths_join (g h : Group) :
    ((g.join h).truths value).Perm (g.truths value ++ h.truths value) := by
  obtain ⟨direct, groups⟩ := g
  obtain ⟨direct', groups'⟩ := h
  simp only [join, Group.direct, Group.groups, truths, List.map_append, truthsAll_append]
  exact perm_middle ..

theorem leaves_join (g h : Group) : (g.join h).leaves.Perm (g.leaves ++ h.leaves) := by
  obtain ⟨direct, groups⟩ := g
  obtain ⟨direct', groups'⟩ := h
  simp only [leaves, join, Group.direct, Group.groups, members, List.flatMap_append,
    membersAll_append]
  exact perm_middle ..

end

section

variable (value : Predicate → Truth)

mutual

theorem isEmpty_iff_truths : ∀ g : Group, g.isEmpty = true ↔ g.truths value = []
  | mk direct groups => by
      rw [isEmpty, truths, Bool.and_eq_true, List.isEmpty_iff, List.append_eq_nil_iff,
        List.map_eq_nil_iff, isEmptyAll_iff_truthsAll groups]

theorem isEmptyAll_iff_truthsAll : ∀ groups : List Group,
    isEmptyAll groups = true ↔ truthsAll value groups = []
  | [] => by simp [isEmptyAll, truthsAll]
  | g :: rest => by
      rw [isEmptyAll, truthsAll, Bool.and_eq_true, isEmptyAll_iff_truthsAll rest]
      by_cases h : g.isEmpty = true <;> simp [h]

end

variable {value}

theorem isEmpty_eq_of_perm {g h : Group} (hperm : (g.truths value).Perm (h.truths value)) :
    g.isEmpty = h.isEmpty := by
  rw [Bool.eq_iff_iff, isEmpty_iff_truths value g, isEmpty_iff_truths value h]
  exact ⟨fun hg => List.nil_perm.mp (hg ▸ hperm), fun hh => List.perm_nil.mp (hh ▸ hperm)⟩

end

structure Equivalent (g h : Group) : Prop where
  leaves : g.leaves.Perm h.leaves
  truths : ∀ params row, (g.truths (Predicate.meaning params row)).Perm
    (h.truths (Predicate.meaning params row))

namespace Equivalent

variable {g g' h h' : Group}

theorem refl (g : Group) : g.Equivalent g := ⟨.refl _, fun _ _ => .refl _⟩

theorem trans {k : Group} (h₁ : g.Equivalent h) (h₂ : h.Equivalent k) : g.Equivalent k :=
  ⟨h₁.leaves.trans h₂.leaves, fun params row => (h₁.truths params row).trans (h₂.truths params row)⟩

theorem join (h₁ : g.Equivalent g') (h₂ : h.Equivalent h') :
    (g.join h).Equivalent (g'.join h') where
  leaves := (leaves_join g h).trans ((h₁.leaves.append h₂.leaves).trans (leaves_join g' h').symm)
  truths := fun params row => (truths_join g h).trans
    (((h₁.truths params row).append (h₂.truths params row)).trans (truths_join g' h').symm)

theorem isEmpty_eq (h₁ : g.Equivalent h) : g.isEmpty = h.isEmpty :=
  isEmpty_eq_of_perm (h₁.truths ∅ ∅)

theorem nested (h₁ : g.Equivalent h) : (Group.mk [] [g]).Equivalent (.mk [] [h]) where
  leaves := by simpa [Group.leaves, members, membersAll] using h₁.leaves
  truths := by
    intro params row
    simp only [Group.truths, truthsAll, h₁.isEmpty_eq, Truth.disj_perm (h₁.truths params row)]
    exact .refl _

theorem resolved (g : Group) : (Group.mk g.resolved []).Equivalent g where
  leaves := by
    rw [← leaves_resolved g, Group.leaves, members, membersAll, List.append_nil]
  truths := by
    intro params row
    rw [← map_meaning_resolved params row g, Group.truths, truthsAll, List.append_nil]

end Equivalent

end Group

end RecordQuery
