import RecordQuery.Proofs.Builder.Resolution
import RecordQuery.Proofs.Predicate.Acceptance

namespace RecordQuery

namespace Truth

variable {ts : List Truth}

theorem conj_eq_yes : conj ts = yes ↔ ∀ t ∈ ts, t = yes := by
  induction ts with
  | nil => simp [conj]
  | cons t rest ih =>
      rw [List.forall_mem_cons, ← ih]
      exact both_eq_yes

theorem disj_eq_yes : disj ts = yes ↔ yes ∈ ts := by
  induction ts with
  | nil => simp [disj]
  | cons t rest ih =>
      rw [List.mem_cons, ← ih, eq_comm (a := yes)]
      exact either_eq_yes

end Truth

namespace Predicate

def MayFail : Predicate → Prop
  | compare _ _ (.param _) => True
  | like .. => True
  | _ => False

mutual

theorem mem_parameterNames {name : String} : ∀ p : Predicate,
    name ∈ p.parameterNames ↔ ∃ expr op, compare expr op (.param name) ∈ p.leaves
  | literal _ => by simp [parameterNames, leaves]
  | compare _ _ (.value _) => by simp [parameterNames, leaves]
  | compare _ _ (.param _) => by simp [parameterNames, leaves]
  | compareFields .. => by simp [parameterNames, leaves]
  | among .. => by simp [parameterNames, leaves]
  | isNull _ => by simp [parameterNames, leaves]
  | isNotNull _ => by simp [parameterNames, leaves]
  | like .. => by simp [parameterNames, leaves]
  | negate inner => mem_parameterNames inner
  | all items => mem_parameterNamesAll items
  | any items => mem_parameterNamesAll items

theorem mem_parameterNamesAll {name : String} : ∀ items : List Predicate,
    name ∈ parameterNamesAll items ↔ ∃ expr op, compare expr op (.param name) ∈ leavesAll items
  | [] => by simp [parameterNamesAll, leavesAll]
  | p :: rest => by
      simp only [parameterNamesAll, leavesAll, List.mem_append, exists_or, mem_parameterNames p,
        mem_parameterNamesAll rest]

end

end Predicate

namespace Group

open Predicate

theorem mem_resolved_join {g h : Group} {p : Predicate} :
    p ∈ (g.join h).resolved ↔ p ∈ g.resolved ∨ p ∈ h.resolved := by
  obtain ⟨direct, groups⟩ := g
  obtain ⟨direct', groups'⟩ := h
  simp only [join, resolved, Group.direct, Group.groups, resolvedAll_append, List.mem_append]
  tauto

theorem isEmpty_join (g h : Group) : (g.join h).isEmpty = (g.isEmpty && h.isEmpty) := by
  rw [Bool.eq_iff_iff, Bool.and_eq_true]
  simp only [isEmpty_iff_resolved, List.eq_nil_iff_forall_not_mem, mem_resolved_join, not_or,
    forall_and]

theorem leavesAll_resolved (g : Group) : leavesAll g.resolved = g.leaves := by
  rw [leavesAll_eq_flatMap, leaves_resolved]

theorem forall_meaning_resolved {params : Parameters} {row : Row} (g : Group) :
    (∀ p ∈ g.resolved, p.meaning params row = .yes) ↔
      ∀ t ∈ g.truths (meaning params row), t = .yes := by
  rw [← map_meaning_resolved, List.forall_mem_map]

theorem evaluate_resolved {params : Parameters} {row : Row} {g : Group}
    (hnames : ∀ name ∈ parameterNamesAll g.resolved, params.contains name = true) :
    (∀ p ∈ g.resolved, p.evaluate params row = .ok .yes) ↔
      Readable g.leaves ∧ ∀ t ∈ g.truths (meaning params row), t = .yes := by
  have hstop : stopAmong params row (· == .yes) g.resolved = none := by
    rw [Option.eq_none_iff_forall_ne_some]
    intro name hname
    obtain ⟨hmem, hunbound⟩ := unbound_of_stopAmong g.resolved hname
    rw [hnames name hmem] at hunbound
    cases hunbound
  rw [← acceptsOnce_eq_true, acceptsOnce_eq_ok, leavesAll_resolved, beq_iff_eq, meaningAll_eq_yes,
    forall_meaning_resolved]
  exact and_congr_right fun _ => and_iff_right hstop

theorem truths_group (value : Predicate → Truth) (g : Group) :
    (Group.mk [] [g]).truths value = if g.isEmpty then [] else [.disj (g.truths value)] := by
  simp only [truths, truthsAll, List.map_nil, List.nil_append]

/-- Two groups that can fail at the same conditions, and of which one holds if the other does, both
when all has to be true and when something has to be. -/
structure Exchange (g h : Group) : Prop where
  mayFail : ∀ p : Predicate, p.MayFail → (p ∈ g.leaves ↔ p ∈ h.leaves)
  isEmpty_eq : g.isEmpty = h.isEmpty
  all : ∀ params row, (∀ t ∈ g.truths (meaning params row), t = .yes) ↔
    ∀ t ∈ h.truths (meaning params row), t = .yes
  any : ∀ params row, .yes ∈ g.truths (meaning params row) ↔ .yes ∈ h.truths (meaning params row)

theorem Equivalent.exchange {g h : Group} (hg : g.Equivalent h) : g.Exchange h where
  mayFail := fun _ _ => hg.leaves.mem_iff
  isEmpty_eq := hg.isEmpty_eq
  all := fun params row => by simp only [(hg.truths params row).mem_iff]
  any := fun params row => (hg.truths params row).mem_iff

namespace Exchange

variable {g g' h h' : Group} {params : Parameters} {row : Row}

theorem refl (g : Group) : g.Exchange g := (Equivalent.refl g).exchange

theorem symm (hg : g.Exchange h) : h.Exchange g where
  mayFail := fun p hp => (hg.mayFail p hp).symm
  isEmpty_eq := hg.isEmpty_eq.symm
  all := fun params row => (hg.all params row).symm
  any := fun params row => (hg.any params row).symm

theorem trans {k : Group} (hg : g.Exchange h) (hh : h.Exchange k) : g.Exchange k where
  mayFail := fun p hp => (hg.mayFail p hp).trans (hh.mayFail p hp)
  isEmpty_eq := hg.isEmpty_eq.trans hh.isEmpty_eq
  all := fun params row => (hg.all params row).trans (hh.all params row)
  any := fun params row => (hg.any params row).trans (hh.any params row)

theorem join (hg : g.Exchange g') (hh : h.Exchange h') : (g.join h).Exchange (g'.join h') where
  mayFail := fun p hp => by
    rw [(leaves_join g h).mem_iff, (leaves_join g' h').mem_iff, List.mem_append, List.mem_append,
      hg.mayFail p hp, hh.mayFail p hp]
  isEmpty_eq := by rw [isEmpty_join, isEmpty_join, hg.isEmpty_eq, hh.isEmpty_eq]
  all := fun params row => by
    simp only [(truths_join g h).mem_iff, (truths_join g' h').mem_iff, List.forall_mem_append,
      hg.all params row, hh.all params row]
  any := fun params row => by
    simp only [(truths_join g h).mem_iff, (truths_join g' h').mem_iff, List.mem_append,
      hg.any params row, hh.any params row]

theorem nested (hg : g.Exchange h) : (Group.mk [] [g]).Exchange (.mk [] [h]) where
  mayFail := by simpa [Group.leaves, members, membersAll] using hg.mayFail
  isEmpty_eq := by simp [isEmpty, isEmptyAll, hg.isEmpty_eq]
  all := fun params row => by
    rw [truths_group, truths_group, hg.isEmpty_eq]
    split
    · rfl
    · simp only [List.forall_mem_singleton, Truth.disj_eq_yes, hg.any params row]
  any := fun params row => by
    rw [truths_group, truths_group, hg.isEmpty_eq]
    split
    · rfl
    · simp only [List.mem_singleton, eq_comm (a := Truth.yes), Truth.disj_eq_yes, hg.any params row]

theorem of_single (hg : ∀ p ∈ g.leaves, ¬p.MayFail) (hh : ∀ p ∈ h.leaves, ¬p.MayFail)
    (hsingle : ∀ params row, ∃ t u, g.truths (meaning params row) = [t] ∧
      h.truths (meaning params row) = [u] ∧ (t = .yes ↔ u = .yes)) : g.Exchange h where
  mayFail := fun p hp => iff_of_false (fun hmem => hg p hmem hp) fun hmem => hh p hmem hp
  isEmpty_eq := by
    obtain ⟨t, u, ht, hu, -⟩ := hsingle ∅ ∅
    rw [Bool.eq_iff_iff, isEmpty_iff_truths _ g, isEmpty_iff_truths _ h, ht, hu]
    simp
  all := fun params row => by
    obtain ⟨t, u, ht, hu, hyes⟩ := hsingle params row
    rw [ht, hu, List.forall_mem_singleton, List.forall_mem_singleton, hyes]
  any := fun params row => by
    obtain ⟨t, u, ht, hu, hyes⟩ := hsingle params row
    rw [ht, hu, List.mem_singleton, List.mem_singleton, eq_comm, hyes, eq_comm]

theorem readable_iff (hg : g.Exchange h) : Readable g.leaves ↔ Readable h.leaves :=
  forall₃_congr fun expr pattern escape =>
    imp_congr_left (hg.mayFail (like expr pattern escape) trivial)

theorem accepts_iff (hg : g.Exchange h)
    (hnames : ∀ name ∈ parameterNamesAll h.resolved, params.contains name = true) :
    (∀ p ∈ g.resolved, p.evaluate params row = .ok .yes) ↔
      ∀ p ∈ h.resolved, p.evaluate params row = .ok .yes := by
  have hnames' : ∀ name ∈ parameterNamesAll g.resolved, params.contains name = true := by
    intro name hname
    rw [mem_parameterNamesAll, leavesAll_resolved] at hname
    obtain ⟨expr, op, hleaf⟩ := hname
    refine hnames name ?_
    rw [mem_parameterNamesAll, leavesAll_resolved]
    exact ⟨expr, op, (hg.mayFail (compare expr op (.param name)) trivial).mp hleaf⟩
  rw [evaluate_resolved hnames, evaluate_resolved hnames', hg.readable_iff, hg.all params row]

end Exchange

end Group

open Builder

inductive Place where
  | here (before after : List Step)
  | inside (before : List Step) (inner : Place) (after : List Step)

namespace Place

def fill (steps : List Step) : Place → List Step
  | here before after => before ++ steps ++ after
  | inside before inner after => before ++ .group (inner.fill steps) :: after

def Bound (params : Parameters) (start : Builder) (steps : List Step) : Place → Prop
  | here _ _ => True
  | inside _ inner _ =>
      ∀ name ∈ Predicate.parameterNamesAll (start.performAll (inner.fill steps)).1.predicates,
        params.contains name = true

end Place

namespace Builder

variable {b : Builder} {params : Parameters} {row : Row} {steps others : List Step}

theorem accepts_extend {g : Group} :
    (b.extend g).Accepts params row ↔
      b.Accepts params row ∧ ∀ p ∈ g.resolved, p.evaluate params row = .ok .yes := by
  simp only [Accepts, predicates, extend, Group.mem_resolved_join, or_imp, forall_and]

theorem accepts_nested : b.nested.Accepts params row := by
  intro p hp
  cases hp

theorem accepts_resolve : b.resolve.Accepts params row ↔ b.Accepts params row := by
  rw [Accepts, predicates_resolve, Accepts]

theorem accepts_perform (step : Step) (b : Builder) :
    (perform step b).1.Accepts params row ↔
      b.Accepts params row ∧ (perform step b.nested).1.Accepts params row := by
  by_cases hgroup : ∀ steps, step ≠ .group steps
  · by_cases hresolve : step = .resolve
    · subst hresolve
      have hnested : b.nested.resolve.Accepts params row := accepts_resolve.mpr accepts_nested
      rw [perform_of_ok hgroup rfl, perform_of_ok hgroup rfl, accepts_resolve]
      exact (and_iff_left hnested).symm
    · have happly := apply_eq_extend b hgroup hresolve
      cases hown : b.nested.apply step with
      | ok after =>
          rw [hown] at happly
          rw [perform_of_ok hgroup happly, perform_of_ok hgroup hown]
          exact accepts_extend
      | error fault =>
          rw [hown] at happly
          rw [perform_of_error hgroup happly, perform_of_error hgroup hown]
          exact (and_iff_left accepts_nested).symm
  · obtain ⟨inner, rfl⟩ : ∃ inner, step = .group inner := by simpa using hgroup
    have hattach : (perform (.group inner) b).1 =
        b.extend (perform (.group inner) b.nested).1.root := by
      rw [perform, perform]
      simp only [attach, extend, Group.attach_eq_join, nested, Group.empty_join]
    rw [hattach]
    exact accepts_extend

theorem accepts_performAll : ∀ (steps : List Step) (b : Builder),
    (performAll steps b).1.Accepts params row ↔
      b.Accepts params row ∧ ∀ step ∈ steps, (perform step b.nested).1.Accepts params row
  | [], b => by simp [performAll]
  | step :: rest, b => by
      have hnested : (perform step b).1.nested = b.nested := (performAll_equivalent [step] b).1
      rw [performAll, List.forall_mem_cons, accepts_performAll rest, accepts_perform, hnested,
        and_assoc]

theorem names_group {g : Group}
    (h : ∀ name ∈ Predicate.parameterNamesAll g.resolved, params.contains name = true) :
    ∀ name ∈ Predicate.parameterNamesAll (Group.mk [] [g]).resolved,
      params.contains name = true := by
  intro name hname
  refine h name ?_
  rw [Predicate.mem_parameterNamesAll, Group.leavesAll_resolved] at hname ⊢
  simpa [Group.leaves, Group.members, Group.membersAll] using hname

theorem gathered_append (start : Builder) (steps others : List Step) :
    gathered start (steps ++ others) = (gathered start steps).join (gathered start others) := by
  induction steps with
  | nil => exact (Group.empty_join _).symm
  | cons step rest ih => rw [List.cons_append, gathered, gathered, ih, Group.join_assoc]

theorem exchange_fill {start : Builder}
    (h : (gathered start steps).Exchange (gathered start others)) :
    ∀ place : Place,
      (gathered start (place.fill steps)).Exchange (gathered start (place.fill others))
  | .here before after => by
      rw [Place.fill, Place.fill, gathered_append, gathered_append, gathered_append,
        gathered_append]
      exact ((Group.Exchange.refl _).join h).join (.refl _)
  | .inside before inner after => by
      rw [Place.fill, Place.fill, gathered_append, gathered_append, gathered, gathered, added,
        added]
      exact (Group.Exchange.refl _).join ((exchange_fill h inner).nested.join (.refl _))

theorem exchange_performAll (h : (gathered b.nested steps).Exchange (gathered b.nested others)) :
    (performAll steps b).1.root.Exchange (performAll others b).1.root := by
  have hsteps := (performAll_equivalent steps b).2.exchange
  have hothers := (performAll_equivalent others b).2.exchange
  exact hsteps.trans (((Group.Exchange.refl b.root).join h).trans hothers.symm)

theorem answers_fill (h : (gathered b.nested steps).Exchange (gathered b.nested others))
    (place : Place) {answer answer' : Bool}
    (hanswer : acceptsOnce (performAll (place.fill steps) b).1.predicates params row = .ok answer)
    (hanswer' : acceptsOnce (performAll (place.fill others) b).1.predicates params row =
      .ok answer') : answer = answer' := by
  have hroot := exchange_performAll (exchange_fill h place)
  rw [Bool.eq_iff_iff, eq_of_acceptsOnce hanswer, eq_of_acceptsOnce hanswer']
  exact (Group.forall_meaning_resolved _).trans
    ((hroot.all params row).trans (Group.forall_meaning_resolved _).symm)

theorem accepts_fill (h : (gathered b.nested steps).Exchange (gathered b.nested others))
    (halike : (∀ step ∈ steps, (perform step b.nested).1.Accepts params row) ↔
      ∀ step ∈ others, (perform step b.nested).1.Accepts params row)
    (place : Place) (hbound : place.Bound params b.nested others) :
    (performAll (place.fill steps) b).1.Accepts params row ↔
      (performAll (place.fill others) b).1.Accepts params row := by
  -- What is outside of all groups is accepted step by step, and only a group that is exchanged can
  -- fail in another way than before.
  rw [accepts_performAll, accepts_performAll]
  cases place with
  | here before after => simp only [Place.fill, List.forall_mem_append, halike]
  | inside before inner after =>
      have hinner : (performAll (inner.fill steps) b.nested).1.root.Exchange
          (performAll (inner.fill others) b.nested).1.root :=
        exchange_performAll (exchange_fill h inner)
      have hgroup : (perform (.group (inner.fill steps)) b.nested).1.Accepts params row ↔
          (perform (.group (inner.fill others)) b.nested).1.Accepts params row := by
        rw [perform, perform]
        exact hinner.nested.accepts_iff (names_group hbound)
      simp only [Place.fill, List.forall_mem_append, List.forall_mem_cons, hgroup]

end Builder

end RecordQuery
