import Mathlib.Data.List.Nodup
import RecordQuery.Database.Search
import RecordQuery.Proofs.Data.Sorting
import RecordQuery.Proofs.Predicate.Meaning

namespace RecordQuery.Database

open RecordQuery.Sql

variable {l : Layout} {covering : Path → Bool} {e : Entry}

theorem satisfies_iff {conditions : List Condition} :
    satisfies l e conditions = true ↔ truthAll l e conditions = .yes := by
  rw [satisfies, beq_iff_eq]

theorem satisfies_cons {c : Condition} {conditions : List Condition} :
    satisfies l e (c :: conditions) = true ↔
      truth l e c = .yes ∧ satisfies l e conditions = true := by
  rw [satisfies_iff, satisfies_iff, truthAll, Truth.both_eq_yes]

def Plan.Reaches (l : Layout) (e : Entry) (p : Plan) : Prop :=
  ∃ s ∈ p.stretches, satisfies l e s.conditions = true

namespace Plan

theorem mem_of_least {measure : Plan → List Cost} {plans : List Plan} {p : Plan}
    (h : least measure plans = some p) : p ∈ plans := by
  induction plans generalizing p with
  | nil => cases h
  | cons q rest ih =>
      rw [least] at h
      cases hrest : least measure rest with
      | none =>
          rw [hrest] at h
          rw [Option.some.inj h]
          exact List.mem_cons_self ..
      | some r =>
          simp only [hrest] at h
          split at h
          · rw [← Option.some.inj h]
            exact List.mem_cons_of_mem _ (ih hrest)
          · rw [Option.some.inj h]
            exact List.mem_cons_self ..

theorem exists_least (measure : Plan → List Cost) (p : Plan) (rest : List Plan) :
    ∃ q, least measure (p :: rest) = some q := by
  rw [least]
  cases least measure rest with
  | none => exact ⟨p, rfl⟩
  | some q =>
      simp only
      split
      · exact ⟨q, rfl⟩
      · exact ⟨p, rfl⟩

theorem reaches_within {c : Condition} {p : Plan} (hc : truth l e c = .yes)
    (hp : p.Reaches l e) : (p.within c).Reaches l e := by
  obtain ⟨s, hs, hsat⟩ := hp
  exact ⟨_, List.mem_map_of_mem hs, satisfies_cons.mpr ⟨hc, hsat⟩⟩

theorem reaches_sum {plans : List Plan} {p q : Plan} (hsum : Plan.sum plans = some p)
    (hq : q ∈ plans) (hreach : q.Reaches l e) : p.Reaches l e := by
  cases plans with
  | nil => cases hq
  | cons first rest =>
      obtain rfl := Option.some.inj hsum
      obtain ⟨s, hs, hsat⟩ := hreach
      exact ⟨s, List.mem_flatMap_of_mem hq hs, hsat⟩

end Plan

theorem Access.reaches_plan (a : Access) (w : Way) : (a.plan w).Reaches l e :=
  ⟨⟨w.path, []⟩, List.mem_singleton_self _, rfl⟩

theorem Access.reaches_plans {a outer : Access} {p : Plan} (h : p ∈ a.plans covering outer) :
    p.Reaches l e := by
  obtain ⟨w, -, rfl⟩ := List.mem_map.mp h
  exact a.reaches_plan w

theorem mem_of_mapM_id {options : List (Option Plan)} {plans : List Plan} {o : Option Plan}
    (h : options.mapM id = some plans) (ho : o ∈ options) : ∃ p ∈ plans, o = some p := by
  induction options generalizing plans with
  | nil => cases ho
  | cons first rest ih =>
      rw [List.mapM_cons] at h
      cases first with
      | none => cases h
      | some p =>
          cases hrest : rest.mapM id with
          | none => simp [hrest] at h
          | some others =>
              simp only [id_eq, hrest, Option.pure_def, Option.bind_eq_bind, Option.bind_some,
                Option.some.injEq] at h
              subst h
              rcases List.mem_cons.mp ho with rfl | ho
              · exact ⟨p, List.mem_cons_self .., rfl⟩
              · obtain ⟨q, hq, rfl⟩ := ih hrest ho
                exact ⟨q, List.mem_cons_of_mem _ hq, rfl⟩

theorem reaches_of_leaf {c : Condition} {a outer : Access} (hc : truth l e c = .yes) :
    ∃ o ∈ [(Plan.cheapest (a.plans covering outer)).map (Plan.within c)],
      ∀ p, o = some p → p.Reaches l e := by
  refine ⟨_, List.mem_singleton_self _, ?_⟩
  intro p hp
  obtain ⟨q, hq, rfl⟩ := Option.map_eq_some_iff.mp hp
  exact Plan.reaches_within hc (Access.reaches_plans (Plan.mem_of_least hq))

mutual

theorem reaches_disjunctions : ∀ (c : Condition) (outer : Access), truth l e c = .yes →
    ∀ p ∈ disjunctions l covering outer c, p.Reaches l e
  | .all first rest, outer, hc, p, hp => by
      rw [truth, Truth.both_eq_yes] at hc
      rw [disjunctions, List.mem_append] at hp
      rcases hp with hp | hp
      · exact reaches_disjunctions first outer hc.1 p hp
      · exact reaches_disjunctionsAll rest outer hc.2 p hp
  | .any first rest, outer, hc, p, hp => by
      rw [truth, Truth.either_eq_yes] at hc
      rw [disjunctions, Option.mem_toList, Option.bind_eq_some_iff] at hp
      obtain ⟨plans, hplans, hsum⟩ := hp
      obtain ⟨o, ho, hreach⟩ : ∃ o ∈ alternatives l covering outer first ++
          alternativesAll l covering outer rest, ∀ p, o = some p → p.Reaches l e := by
        rcases hc with hc | hc
        · obtain ⟨o, ho, hreach⟩ := reaches_alternatives first outer hc
          exact ⟨o, List.mem_append_left _ ho, hreach⟩
        · obtain ⟨o, ho, hreach⟩ := reaches_alternativesAll rest outer hc
          exact ⟨o, List.mem_append_right _ ho, hreach⟩
      obtain ⟨q, hq, rfl⟩ := mem_of_mapM_id hplans ho
      exact Plan.reaches_sum hsum hq (hreach q rfl)
  | .constant _, _, _, _, hp => by cases hp
  | .compare .., _, _, _, hp => by cases hp
  | .compareFields .., _, _, _, hp => by cases hp
  | .among .., _, _, _, hp => by cases hp
  | .isNull _, _, _, _, hp => by cases hp
  | .isNotNull _, _, _, _, hp => by cases hp
  | .like .., _, _, _, hp => by cases hp
  | .negate _, _, _, _, hp => by cases hp

theorem reaches_disjunctionsAll : ∀ (conditions : List Condition) (outer : Access),
    truthAll l e conditions = .yes →
      ∀ p ∈ disjunctionsAll l covering outer conditions, p.Reaches l e
  | [], _, _, _, hp => by cases hp
  | c :: rest, outer, hc, p, hp => by
      rw [truthAll, Truth.both_eq_yes] at hc
      rw [disjunctionsAll, List.mem_append] at hp
      rcases hp with hp | hp
      · exact reaches_disjunctions c outer hc.1 p hp
      · exact reaches_disjunctionsAll rest outer hc.2 p hp

theorem reaches_alternatives : ∀ (c : Condition) (outer : Access), truth l e c = .yes →
    ∃ o ∈ alternatives l covering outer c, ∀ p, o = some p → p.Reaches l e
  | .any first rest, outer, hc => by
      rw [truth, Truth.either_eq_yes] at hc
      rw [alternatives]
      rcases hc with hc | hc
      · obtain ⟨o, ho, hreach⟩ := reaches_alternatives first outer hc
        exact ⟨o, List.mem_append_left _ ho, hreach⟩
      · obtain ⟨o, ho, hreach⟩ := reaches_alternativesAll rest outer hc
        exact ⟨o, List.mem_append_right _ ho, hreach⟩
  | .all first rest, outer, hc => by
      have hboth := hc
      rw [truth, Truth.both_eq_yes] at hboth
      rw [alternatives]
      refine ⟨_, List.mem_singleton_self _, ?_⟩
      intro p hp
      obtain ⟨q, hq, rfl⟩ := Option.map_eq_some_iff.mp hp
      refine Plan.reaches_within hc ?_
      rcases List.mem_append.mp (Plan.mem_of_least hq) with hq | hq
      · exact Access.reaches_plans hq
      · rcases List.mem_append.mp hq with hq | hq
        · exact reaches_disjunctions first _ hboth.1 q hq
        · exact reaches_disjunctionsAll rest _ hboth.2 q hq
  | .constant _, _, hc => reaches_of_leaf hc
  | .compare .., _, hc => reaches_of_leaf hc
  | .compareFields .., _, hc => reaches_of_leaf hc
  | .among .., _, hc => reaches_of_leaf hc
  | .isNull _, _, hc => reaches_of_leaf hc
  | .isNotNull _, _, hc => reaches_of_leaf hc
  | .like .., _, hc => reaches_of_leaf hc
  | .negate _, _, hc => reaches_of_leaf hc

theorem reaches_alternativesAll : ∀ (conditions : List Condition) (outer : Access),
    truthAny l e conditions = .yes →
      ∃ o ∈ alternativesAll l covering outer conditions, ∀ p, o = some p → p.Reaches l e
  | [], _, hc => by cases hc
  | c :: rest, outer, hc => by
      rw [truthAny, Truth.either_eq_yes] at hc
      rw [alternativesAll]
      rcases hc with hc | hc
      · obtain ⟨o, ho, hreach⟩ := reaches_alternatives c outer hc
        exact ⟨o, List.mem_append_left _ ho, hreach⟩
      · obtain ⟨o, ho, hreach⟩ := reaches_alternativesAll rest outer hc
        exact ⟨o, List.mem_append_right _ ho, hreach⟩

end

theorem satisfies_reducedAll (conditions : List Condition) :
    satisfies l e (Condition.reducedAll conditions) = satisfies l e conditions := by
  rw [satisfies, satisfies, truthAll_reduced]

theorem reaches_searches {conditions : List Condition} {p : Plan}
    (h : p ∈ searches l covering conditions) (hsat : satisfies l e conditions = true) :
    p.Reaches l e := by
  rcases List.mem_append.mp h with h | h
  · exact Access.reaches_plans h
  · exact reaches_disjunctionsAll conditions _ (satisfies_iff.mp hsat) p h

theorem planFor_reaches (l : Layout) (s : Select) :
    ∃ p, planFor l s = some p ∧ ∀ e, satisfies l e s.conditions = true → p.Reaches l e := by
  let reduced := { s with conditions := Condition.reducedAll s.conditions }
  let ways := (wholeWays l reduced).map
    (accessAll l (isCovering l reduced) reduced.conditions).plan
  let plans := ways ++ searches l (isCovering l reduced) reduced.conditions
  have hplan : planFor l s = (Plan.cheapest plans).bind fun best =>
      Plan.least (fun p => [finalCost l reduced (best.rows + 1) p, p.rows, p.cost]) plans := rfl
  obtain ⟨first, rest, hcons⟩ : ∃ first rest, plans = first :: rest :=
    ⟨_, _, rfl⟩
  obtain ⟨best, hbest⟩ : ∃ best, Plan.cheapest plans = some best := by
    rw [hcons]
    exact Plan.exists_least _ first rest
  obtain ⟨p, hp⟩ : ∃ p, Plan.least
      (fun p => [finalCost l reduced (best.rows + 1) p, p.rows, p.cost]) plans = some p := by
    rw [hcons]
    exact Plan.exists_least _ first rest
  refine ⟨p, by rw [hplan, hbest, Option.bind_some, hp], ?_⟩
  intro e hsat
  rcases List.mem_append.mp (Plan.mem_of_least hp) with h | h
  · obtain ⟨w, -, rfl⟩ := List.mem_map.mp h
    exact Access.reaches_plan _ w
  · exact reaches_searches h ((satisfies_reducedAll s.conditions).trans hsat)

section

variable {entries : List Entry}

theorem along_perm (s : Stretch) :
    (along l entries s).Perm (entries.filter fun e => satisfies l e s.conditions) :=
  sortBy_perm _ _

theorem mem_along {s : Stretch} :
    e ∈ along l entries s ↔ e ∈ entries ∧ satisfies l e s.conditions = true := by
  rw [(along_perm s).mem_iff, List.mem_filter]

theorem along_nodup (h : entries.Nodup) (s : Stretch) : (along l entries s).Nodup :=
  (along_perm s).nodup_iff.mpr (h.filter _)

theorem mem_of_visitAll {stretches : List Stretch} (h : e ∈ visitAll l entries stretches) :
    e ∈ entries := by
  induction stretches generalizing entries with
  | nil => cases h
  | cons s rest ih =>
      rcases List.mem_append.mp h with h | h
      · exact (mem_along.mp h).1
      · exact (List.mem_filter.mp (ih h)).1

theorem visitAll_nodup (h : entries.Nodup) (stretches : List Stretch) :
    (visitAll l entries stretches).Nodup := by
  induction stretches generalizing entries with
  | nil => exact .nil
  | cons s rest ih =>
      refine List.nodup_append.mpr ⟨along_nodup h s, ih (h.filter _), ?_⟩
      rintro a ha b hb rfl
      have hleft := (List.mem_filter.mp (mem_of_visitAll hb)).2
      simpa using List.all_eq_true.mp hleft a ha

theorem entry_of_number (h : (entries.map (·.number)).Nodup) {a b : Entry} (ha : a ∈ entries)
    (hb : b ∈ entries) (hab : a.number = b.number) : a = b :=
  List.inj_on_of_nodup_map h ha hb hab

theorem mem_visitAll (hnumbers : (entries.map (·.number)).Nodup) {stretches : List Stretch}
    (he : e ∈ entries) (hreach : ∃ s ∈ stretches, satisfies l e s.conditions = true) :
    e ∈ visitAll l entries stretches := by
  induction stretches generalizing entries with
  | nil =>
      obtain ⟨s, hs, -⟩ := hreach
      cases hs
  | cons s rest ih =>
      obtain ⟨t, ht, hsat⟩ := hreach
      by_cases hhere : e ∈ along l entries s
      · exact List.mem_append_left _ hhere
      · have hkept : e ∈ entries.filter
            fun e => (along l entries s).all (·.number != e.number) := by
          refine List.mem_filter.mpr ⟨he, List.all_eq_true.mpr ?_⟩
          intro a ha
          rw [bne_iff_ne]
          intro hab
          rw [entry_of_number hnumbers (mem_along.mp ha).1 he hab] at ha
          exact hhere ha
        have hrest : t ∈ rest := by
          rcases List.mem_cons.mp ht with rfl | ht
          · exact absurd (mem_along.mpr ⟨he, hsat⟩) hhere
          · exact ht
        have hkeptNumbers : ((entries.filter
            fun e => (along l entries s).all (·.number != e.number)).map (·.number)).Nodup :=
          hnumbers.sublist (List.filter_sublist.map _)
        exact List.mem_append_right _ (ih hkeptNumbers hkept ⟨t, hrest, hsat⟩)

theorem visited_spec (hnumbers : (entries.map (·.number)).Nodup) (s : Select) :
    (visited l entries s).Nodup ∧ (∀ e ∈ visited l entries s, e ∈ entries) ∧
      ∀ e ∈ entries, satisfies l e s.conditions = true → e ∈ visited l entries s := by
  have hnodup : entries.Nodup := .of_map _ hnumbers
  obtain ⟨p, hp, hreach⟩ := planFor_reaches l s
  unfold visited
  rw [hp, Option.map_some, Option.getD_some]
  split
  · rename_i stretch hstretch
    have hall : ∀ e ∈ entries, satisfies l e s.conditions = true →
        e ∈ along l entries stretch := by
      intro e he hsat
      obtain ⟨t, ht, htsat⟩ := hreach e hsat
      rw [hstretch, List.mem_singleton] at ht
      subst ht
      exact mem_along.mpr ⟨he, htsat⟩
    simp only
    split
    · refine ⟨List.nodup_reverse.mpr (along_nodup hnodup stretch), ?_, ?_⟩
      · intro e he
        exact (mem_along.mp (List.mem_reverse.mp he)).1
      · intro e he hsat
        exact List.mem_reverse.mpr (hall e he hsat)
    · exact ⟨along_nodup hnodup stretch, fun e he => (mem_along.mp he).1, hall⟩
  · refine ⟨visitAll_nodup hnodup _, fun e he => mem_of_visitAll he, ?_⟩
    intro e he hsat
    exact mem_visitAll hnumbers he (hreach e hsat)

end

theorem numbers_nodup (t : Table) : (t.entries.map (·.number)).Nodup := by
  rw [Table.entries_number, Keyed.keys]
  refine List.pairwise_map.mpr (t.records.ascending.imp ?_)
  intro a b hlt hab
  rw [hab, Keyed.compare_eq_iff.mpr rfl] at hlt
  cases hlt

theorem found_perm (t : Table) (s : Select) :
    (found t s).Perm (t.entries.filter fun e => satisfies t.layout e s.conditions) := by
  obtain ⟨hnodup, hmem, hall⟩ := visited_spec (l := t.layout) (numbers_nodup t) s
  refine (List.perm_ext_iff_of_nodup (hnodup.filter _)
    ((List.Nodup.of_map _ (numbers_nodup t)).filter _)).mpr ?_
  intro e
  rw [List.mem_filter, List.mem_filter]
  constructor
  · rintro ⟨hvisited, hsat⟩
    exact ⟨hmem e hvisited, hsat⟩
  · rintro ⟨hentry, hsat⟩
    exact ⟨hall e hentry hsat, hsat⟩

theorem foldl_firstOfEach {α : Type} [BEq α] [LawfulBEq α] {pairs kept : List (α × Entry)}
    (h : (pairs.map (·.1)).Nodup) (hkept : ∀ x ∈ pairs, ∀ y ∈ kept, y.1 ≠ x.1) :
    pairs.foldl (fun kept x => if kept.any (·.1 == x.1) then kept else x :: kept) kept =
      pairs.reverse ++ kept := by
  induction pairs generalizing kept with
  | nil => rfl
  | cons x rest ih =>
      rw [List.map_cons, List.nodup_cons] at h
      have hfresh : kept.any (·.1 == x.1) = false := by
        rw [List.any_eq_false]
        intro y hy
        rw [beq_iff_eq]
        exact hkept x (List.mem_cons_self ..) y hy
      have hnext : ∀ z ∈ rest, ∀ y ∈ x :: kept, y.1 ≠ z.1 := by
        intro z hz y hy
        rcases List.mem_cons.mp hy with rfl | hy
        · intro heq
          exact h.1 (List.mem_map.mpr ⟨z, hz, heq.symm⟩)
        · exact hkept z (List.mem_cons_of_mem _ hz) y hy
      rw [List.foldl_cons, hfresh]
      simp only [Bool.false_eq_true, if_false]
      rw [ih h.2 hnext, List.reverse_cons, List.append_assoc]
      rfl

theorem firstOfEach_of_nodup {α : Type} [BEq α] [LawfulBEq α] {pairs : List (α × Entry)}
    (h : (pairs.map (·.1)).Nodup) : firstOfEach pairs = pairs := by
  have hnone : ∀ x ∈ pairs, ∀ y ∈ ([] : List (α × Entry)), y.1 ≠ x.1 := by
    intro x _ y hy
    cases hy
  rw [firstOfEach, foldl_firstOfEach h hnone, List.append_nil, List.reverse_reverse]

end RecordQuery.Database
