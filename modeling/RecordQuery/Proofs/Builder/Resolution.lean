import RecordQuery.Builder.Script
import RecordQuery.Proofs.Builder.Groups

namespace RecordQuery

namespace Builder

def extend (b : Builder) (g : Group) : Builder := { b with root := b.root.join g }

def Additive (change : Builder → Builder) : Prop :=
  ∀ b, change b = b.extend (change b.nested).root

variable {change next : Builder → Builder}

theorem additive_id : Additive (fun b => b) := by
  intro b
  simp only [extend, nested, Group.join_empty]

theorem additive_push (p : Predicate) : Additive (·.push p) := by
  intro b
  simp only [push, extend, nested, Group.push_eq_join, Group.empty_join]

theorem additive_pushSome (p : Option Predicate) : Additive (·.pushSome p) := by
  cases p with
  | none => exact additive_id
  | some p => exact additive_push p

theorem additive_attachDirect (items : List Predicate) : Additive (·.attachDirect items) := by
  intro b
  simp only [attachDirect, extend, nested, Group.attach_eq_join, Group.empty_join]

theorem Additive.comp (h : Additive change) (hnext : Additive next) : Additive (next ∘ change) := by
  intro b
  have hb : next (change b) = (b.extend (change b.nested).root).extend (next b.nested).root := by
    rw [h b, hnext]
    rfl
  have hn : (next (change b.nested)).root =
      (change b.nested).root.join (next b.nested).root := by
    rw [h b.nested, hnext]
    simp only [extend, nested, Group.empty_join]
  simp only [Function.comp_apply, hb, hn, extend, Group.join_assoc]

theorem additive_compare (field : String) (op : CompareOp) (value : Option Value) :
    Additive (·.compare field op value) :=
  additive_pushSome _

theorem additive_among (field : String) (values : List Value) :
    Additive (·.among field values) := by
  intro b
  by_cases hempty : values.isEmpty = true
  · simpa only [among, hempty, if_true] using additive_id b
  · by_cases hlimit : values.length ≤ max 1 b.settings.listLimit
    · simpa [among, hempty, hlimit, nested] using
        additive_push (listPredicate (.field field) values) b
    · simpa [among, hempty, hlimit, nested] using additive_attachDirect
        ((chunks b.settings.listLimit values).map (listPredicate (.field field))) b

theorem additive_notAmong (field : String) (values : List Value) :
    Additive (·.notAmong field values) := by
  intro b
  by_cases hempty : values.isEmpty = true
  · simpa only [notAmong, hempty, if_true] using additive_id b
  · by_cases hlimit : values.length ≤ max 1 b.settings.listLimit
    · simpa [notAmong, hempty, hlimit, nested] using
        additive_push (notListPredicate (.field field) values) b
    · simpa [notAmong, hempty, hlimit, nested] using additive_push
        (.allOf ((chunks b.settings.listLimit values).map (notListPredicate (.field field)))) b

theorem additive_between {α : Type} [Ord α] [DecidableEq α] (toValue : α → Value) (field : String)
    (range : Option (Bounds α)) : Additive (between toValue · field range) := by
  cases range with
  | none => exact additive_id
  | some r =>
      by_cases hsingle : r.isSingle = true
      · simpa only [between, hsingle, if_true] using additive_compare field .eq _
      · simp only [between, hsingle]
        exact (additive_compare field .ge _).comp (additive_compare field .le _)

theorem additive_orPredicates (items : List Predicate) : Additive (·.orPredicates items) := by
  by_cases hempty : items.isEmpty = true
  · simpa only [orPredicates, hempty, if_true] using additive_id
  · simpa [orPredicates, hempty] using additive_push (.anyOf items)

section

variable (b : Builder)

theorem like_eq_extend (field pattern : String) (escape : Char) :
    b.like field pattern escape =
      (b.nested.like field pattern escape).map fun after => b.extend after.root := by
  unfold like
  cases Settings.checkEscape escape with
  | error fault => rfl
  | ok _ =>
      by_cases hblank : Text.allBlank pattern.toList = true
      · simp only [hblank, if_true]
        exact congrArg Except.ok (additive_id b)
      · simp only [hblank]
        exact congrArg Except.ok (additive_push _ b)

theorem likeMade_eq_extend (field : String)
    (make : Locale → Char → String → Except ArgumentFault String) (text : String) :
    b.likeMade field make text =
      (b.nested.likeMade field make text).map fun after => b.extend after.root := by
  unfold likeMade
  have hmake : make b.nested.locale b.nested.settings.escape text =
      make b.locale b.settings.escape text := rfl
  rw [hmake]
  cases make b.locale b.settings.escape text with
  | error fault => rfl
  | ok pattern => exact like_eq_extend b field pattern b.settings.escape

theorem likeText_eq_extend (field text : String) :
    b.likeText field text =
      (b.nested.likeText field text).map fun after => b.extend after.root := by
  unfold likeText
  split
  · exact congrArg Except.ok (additive_id b)
  · exact likeMade_eq_extend b field TextPattern.contains text

theorem match_eq_extend (field text : String) (matching : Matching) :
    b.match? field text matching =
      (b.nested.match? field text matching).map fun after => b.extend after.root := by
  cases matching with
  | exact => exact congrArg Except.ok (additive_compare field .eq _ b)
  | startsWith => exact likeMade_eq_extend b field TextPattern.startsWith text
  | endsWith => exact likeMade_eq_extend b field TextPattern.endsWith text
  | like => exact likeText_eq_extend b field text
  | custom => exact like_eq_extend b field text b.settings.escape

theorem add_eq_extend (field : String) (filter : Option TextFilter) :
    b.add field filter = (b.nested.add field filter).map fun after => b.extend after.root := by
  cases filter with
  | none => exact congrArg Except.ok (additive_id b)
  | some f =>
      obtain ⟨value, matching⟩ := f
      cases value with
      | none => exact congrArg Except.ok (additive_id b)
      | some text =>
          simp only [add]
          split
          · exact congrArg Except.ok (additive_id b)
          · exact match_eq_extend b field text matching

theorem apply_eq_extend {step : Step} (hgroup : ∀ steps, step ≠ .group steps)
    (hresolve : step ≠ .resolve) :
    b.apply step = (b.nested.apply step).map fun after => b.extend after.root := by
  cases step with
  | compare field op value => exact congrArg Except.ok (additive_compare field op value b)
  | among field values => exact congrArg Except.ok (additive_among field values b)
  | notAmong field values => exact congrArg Except.ok (additive_notAmong field values b)
  | equalParameter field name => exact congrArg Except.ok (additive_push _ b)
  | compareFields left op right => exact congrArg Except.ok (additive_push _ b)
  | isNull field => exact congrArg Except.ok (additive_push _ b)
  | isNotNull field => exact congrArg Except.ok (additive_push _ b)
  | equalBool field value => exact congrArg Except.ok (additive_pushSome _ b)
  | notEqualBool field value => exact congrArg Except.ok (additive_pushSome _ b)
  | betweenInts field range => exact congrArg Except.ok (additive_between .int field range b)
  | betweenSmallInts field range => exact congrArg Except.ok (additive_between _ field range b)
  | betweenTimes field range => exact congrArg Except.ok (additive_between .time field range b)
  | like field pattern escape => exact like_eq_extend b field pattern escape
  | likeText field text => exact likeText_eq_extend b field text
  | add field filter => exact add_eq_extend b field filter
  | group steps => exact absurd rfl (hgroup steps)
  | orPredicates predicates => exact congrArg Except.ok (additive_orPredicates predicates b)
  | push predicate => exact congrArg Except.ok (additive_push predicate b)
  | resolve => exact absurd rfl hresolve

end

mutual

def added (start : Builder) : Step → Group
  | .group steps => .mk [] [gathered start steps]
  | .resolve => .empty
  | step =>
      match start.apply step with
      | .ok after => after.root
      | .error _ => .empty

def gathered (start : Builder) : List Step → Group
  | [] => .empty
  | step :: rest => (added start step).join (gathered start rest)

end

theorem added_of_ok {start after : Builder} {step : Step} (hgroup : ∀ steps, step ≠ .group steps)
    (hresolve : step ≠ .resolve) (h : start.apply step = .ok after) :
    added start step = after.root := by
  rw [added, h]
  · exact hgroup
  · exact hresolve

theorem added_of_error {start : Builder} {step : Step} {fault : ArgumentFault}
    (hgroup : ∀ steps, step ≠ .group steps) (h : start.apply step = .error fault) :
    added start step = .empty := by
  have hresolve : step ≠ .resolve := by
    rintro rfl
    cases h
  rw [added, h]
  · exact hgroup
  · exact hresolve

theorem performAll_equivalent : ∀ (steps : List Step) (b : Builder),
    (performAll steps b).1.nested = b.nested ∧
      (performAll steps b).1.root.Equivalent (b.root.join (gathered b.nested steps)) := by
  refine (perform.mutual_induct
    (fun step b => (perform step b).1.nested = b.nested ∧
      (perform step b).1.root.Equivalent (b.root.join (added b.nested step)))
    (fun steps b => (performAll steps b).1.nested = b.nested ∧
      (performAll steps b).1.root.Equivalent (b.root.join (gathered b.nested steps)))
    ?_ ?_ ?_ ?_ ?_).2
  · intro steps b ih
    -- The steps of a group run on a builder of their own, which starts with nothing.
    have hstart : b.nested.root.join (gathered b.nested.nested steps) = gathered b.nested steps :=
      Group.empty_join _
    have hinner := hstart ▸ ih.2
    rw [perform, added]
    refine ⟨rfl, ?_⟩
    change (b.root.attach (performAll steps b.nested).1.root).Equivalent _
    rw [Group.attach_eq_join]
    exact (Group.Equivalent.refl _).join hinner.nested
  · intro step b hgroup after hafter
    rw [perform_of_ok hgroup hafter]
    by_cases hresolve : step = .resolve
    · subst hresolve
      obtain rfl := Except.ok.inj hafter
      rw [added, Group.join_empty]
      exact ⟨rfl, .resolved b.root⟩
    · rw [apply_eq_extend b hgroup hresolve] at hafter
      cases hown : b.nested.apply step with
      | error fault =>
          rw [hown] at hafter
          cases hafter
      | ok own =>
          rw [hown] at hafter
          obtain rfl := Except.ok.inj hafter
          rw [added_of_ok hgroup hresolve hown]
          exact ⟨rfl, .refl _⟩
  · intro step b hgroup fault hfault
    have hresolve : step ≠ .resolve := by
      rintro rfl
      cases hfault
    rw [perform_of_error hgroup hfault]
    rw [apply_eq_extend b hgroup hresolve] at hfault
    cases hown : b.nested.apply step with
    | error own =>
        rw [added_of_error hgroup hown, Group.join_empty]
        exact ⟨rfl, .refl _⟩
    | ok own =>
        rw [hown] at hfault
        cases hfault
  · intro b
    rw [performAll, gathered, Group.join_empty]
    exact ⟨rfl, .refl _⟩
  · intro step rest b first ihstep ihrest
    obtain ⟨hnested, hstep⟩ := ihstep
    obtain ⟨hnested', hrest⟩ := ihrest
    rw [performAll, gathered, ← Group.join_assoc]
    refine ⟨hnested'.trans hnested, hrest.trans ?_⟩
    rw [hnested]
    exact hstep.join (.refl _)

section

variable {g : Group} {params : Parameters} {row : Row}

theorem closed_members (h : ∀ leaf ∈ g.leaves, ∃ t, leaf.evaluate params row = .ok t) :
    ∀ p ∈ g.members, p.Closed params := by
  intro p hp
  refine Predicate.closed_of_leaves row p fun leaf hleaf => h leaf ?_
  exact List.mem_flatMap.mpr ⟨p, hp, hleaf⟩

theorem closed_resolved (h : ∀ leaf ∈ g.leaves, ∃ t, leaf.evaluate params row = .ok t) :
    ∀ p ∈ g.resolved, p.Closed params := by
  intro p hp
  refine Predicate.closed_of_leaves row p fun leaf hleaf => h leaf ?_
  rw [← Group.leaves_resolved]
  exact List.mem_flatMap.mpr ⟨p, hp, hleaf⟩

theorem reading_eq (h : ∀ leaf ∈ g.leaves, ∃ t, leaf.evaluate params row = .ok t) :
    g.reading params row = .conj (g.truths (Predicate.meaning params row)) := by
  rw [Group.reading, Group.truths_congr g fun p hp =>
    Predicate.result_eq_meaning (closed_members h p hp)]

end

theorem predicates_resolve (b : Builder) : b.resolve.predicates = b.predicates := by
  simp [resolve, predicates, Group.resolved, Group.resolvedAll]

theorem predicates_group {b : Builder} {inner : List Step}
    (h : (gathered b.nested inner).isEmpty = true) :
    (perform (.group inner) b).1.predicates = b.predicates := by
  have hinner := (performAll_equivalent inner b.nested).2.isEmpty_eq
  have hstart : b.nested.root.join (gathered b.nested.nested inner) = gathered b.nested inner :=
    Group.empty_join _
  rw [hstart, h] at hinner
  rw [perform]
  change (b.root.attach (performAll inner b.nested).1.root).resolved = b.root.resolved
  rw [Group.resolved_attach, (Group.isEmpty_iff_resolved _).mp hinner]
  exact List.append_nil _

theorem resolution (b : Builder) (steps : List Step) :
    let after := (b.performAll steps).1
    let asked := b.root.join (gathered b.nested steps)
    (∀ params row, (∀ leaf ∈ asked.leaves, ∃ t, leaf.evaluate params row = .ok t) →
      (Predicate.all after.predicates).evaluate params row = .ok (asked.reading params row) ∧
        after.predicate.evaluate params row = .ok (asked.reading params row)) ∧
      (after.resolve.root = .mk after.predicates [] ∧ after.resolve.resolve = after.resolve ∧
        after.resolve.predicates = after.predicates ∧ after.resolve.predicate = after.predicate ∧
          after.predicate = .allOf after.predicates) ∧
      (after.isEmpty = true ↔ after.predicates = []) ∧
      ∀ inner, (gathered b.nested inner).isEmpty = true →
        (perform (.group inner) after).1.predicates = after.predicates := by
  intro after asked
  obtain ⟨hnested, hequivalent⟩ := performAll_equivalent steps b
  have hresolve := predicates_resolve after
  refine ⟨?_, ⟨rfl, ?_, hresolve, ?_, rfl⟩, Group.isEmpty_iff_resolved after.root, ?_⟩
  · intro params row hleaves
    have hafter : ∀ leaf ∈ after.root.leaves, ∃ t, leaf.evaluate params row = .ok t :=
      fun leaf hleaf => hleaves leaf (hequivalent.leaves.mem_iff.mp hleaf)
    have hclosed : ∀ p ∈ after.predicates, p.Closed params := closed_resolved hafter
    have htruth : .conj (after.predicates.map (Predicate.meaning params row)) =
        asked.reading params row := by
      rw [reading_eq hleaves, ← Truth.conj_perm (hequivalent.truths params row),
        ← Group.map_meaning_resolved]
      rfl
    have hall : (Predicate.all after.predicates).Closed params :=
      (Predicate.closedAll_iff params).mpr hclosed
    have hone : after.predicate.Closed params := Predicate.closed_allOf hclosed
    constructor
    · rw [Predicate.evaluate_eq row hall, ← htruth]
      exact congrArg Except.ok (Predicate.meaningAll_eq_conj params row after.predicates)
    · rw [Predicate.evaluate_eq row hone, ← htruth]
      exact congrArg Except.ok (Predicate.meaning_allOf params row after.predicates)
  · rw [resolve, hresolve]
    rfl
  · rw [predicate, hresolve]
    rfl
  · intro inner hinner
    exact predicates_group (hnested ▸ hinner)

section

def grouped : Builder := ⟨.english, { listLimit := 2 }, .mk [.isNotNull (.field "name")] []⟩

def groupedSteps : List Step :=
  [.group [.among "age" [.int 1, .int 2, .int 3], .resolve, .group [.group [], .resolve],
      .group [.isNull "gone", .resolve, .equalParameter "age" "least"]],
    .resolve, .notAmong "age" [.int 4, .int 5, .int 6], .group [.group []], .likeText "name" "a  b"]

def groupedParams : Parameters := .ofList [("least", .int 7)]

def groupedRow : Row := .ofList [("name", .text "A and B"), ("age", .int 7), ("gone", .int 0)]

theorem resolution_grouped :
    let after := (grouped.performAll groupedSteps).1
    let asked := grouped.root.join (gathered grouped.nested groupedSteps)
    (∀ leaf ∈ asked.leaves, ∃ t, leaf.evaluate groupedParams groupedRow = .ok t) ∧
      asked.reading groupedParams groupedRow = .yes ∧
      after.predicate.evaluate groupedParams groupedRow = .ok .yes := by
  intro after asked
  have hleaves : ∀ leaf ∈ asked.leaves, ∃ t, leaf.evaluate groupedParams groupedRow = .ok t := by
    have hok : asked.leaves.all (fun leaf => (leaf.evaluate groupedParams groupedRow).isOk) =
        true := by
      decide +kernel
    intro leaf hleaf
    have hleaf := List.all_eq_true.mp hok leaf hleaf
    cases hresult : leaf.evaluate groupedParams groupedRow with
    | ok t => exact ⟨t, rfl⟩
    | error e =>
        rw [hresult] at hleaf
        cases hleaf
  have hreading : asked.reading groupedParams groupedRow = .yes := by decide +kernel
  have hevaluate := ((resolution grouped groupedSteps).1 groupedParams groupedRow hleaves).2
  exact ⟨hleaves, hreading, hevaluate.trans (congrArg Except.ok hreading)⟩

end

end Builder

end RecordQuery
