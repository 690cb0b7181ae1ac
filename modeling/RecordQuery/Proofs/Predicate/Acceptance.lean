import RecordQuery.Proofs.Agreement.Binding

namespace RecordQuery

theorem stopped_eq_ok {α : Type} {name? : Option String} {a b : α} :
    stopped name? a = .ok b ↔ name? = none ∧ a = b := by
  cases name? <;> simp [stopped]

namespace Predicate

def Readable (items : List Predicate) : Prop :=
  ∀ expr pattern escape, like expr pattern escape ∈ items →
    (Like.tokens? escape pattern.toList).isSome = true

theorem readable_append {items others : List Predicate} :
    Readable (items ++ others) ↔ Readable items ∧ Readable others := by
  simp only [Readable, List.mem_append]
  constructor
  · intro h
    exact ⟨fun expr pattern escape hp => h expr pattern escape (.inl hp),
      fun expr pattern escape hp => h expr pattern escape (.inr hp)⟩
  · rintro ⟨hitems, hothers⟩ expr pattern escape (hp | hp)
    · exact hitems expr pattern escape hp
    · exact hothers expr pattern escape hp

theorem readable_flatMap {items : List Predicate} :
    Readable (items.flatMap leaves) ↔ ∀ p ∈ items, Readable p.leaves := by
  induction items with
  | nil => simp [Readable]
  | cons p rest ih => rw [List.flatMap_cons, readable_append, ih, List.forall_mem_cons]

section

variable {params : Parameters}

mutual

theorem closed_of_bound : ∀ p : Predicate,
    (∀ name ∈ p.parameterNames, params.contains name = true) → Readable p.leaves → p.Closed params
  | literal _, _, _ => trivial
  | compare _ _ (.value v), _, _ => ⟨v, rfl⟩
  | compare _ _ (.param name), hbound, _ => by
      obtain ⟨v, hv⟩ := Option.isSome_iff_exists.mp (hbound name (List.mem_singleton_self name))
      exact ⟨v, by simp only [Operand.value?, hv]⟩
  | compareFields .., _, _ => trivial
  | among .., _, _ => trivial
  | isNull _, _, _ => trivial
  | isNotNull _, _, _ => trivial
  | like _ _ _, _, hread => Option.isSome_iff_exists.mp (hread _ _ _ (List.mem_singleton_self _))
  | negate inner, hbound, hread => closed_of_bound inner hbound hread
  | all items, hbound, hread => closedAll_of_bound items hbound hread
  | any items, hbound, hread => closedAll_of_bound items hbound hread

theorem closedAll_of_bound : ∀ items : List Predicate,
    (∀ name ∈ parameterNamesAll items, params.contains name = true) →
      Readable (leavesAll items) → ClosedAll params items
  | [], _, _ => trivial
  | p :: rest, hbound, hread =>
      ⟨closed_of_bound p (fun name hname => hbound name (List.mem_append_left _ hname))
        (readable_append.mp hread).1,
        closedAll_of_bound rest (fun name hname => hbound name (List.mem_append_right _ hname))
          (readable_append.mp hread).2⟩

end

end

end Predicate

namespace PatternTable

open Predicate

theorem isSome_of_add {table after : PatternTable} (h : table.Faithful) {key : PatternKey}
    (hadd : table.add key = .ok after) : (Like.tokens? key.2 key.1.toList).isSome = true := by
  cases hts : Like.tokens? key.2 key.1.toList with
  | some ts => rfl
  | none =>
      cases hlookup : table.lookup key with
      | some ts => rw [h key ts hlookup] at hts; cases hts
      | none => simp [add, hlookup, tokens?, hts] at hadd

mutual

theorem readable_of_collect {table after : PatternTable} (h : table.Faithful) :
    ∀ p : Predicate, collect table p = .ok after → Readable p.leaves
  | .literal _, _ => nofun
  | .compare .., _ => by simp [Readable, leaves]
  | .compareFields .., _ => by simp [Readable, leaves]
  | .among .., _ => by simp [Readable, leaves]
  | .isNull _, _ => by simp [Readable, leaves]
  | .isNotNull _, _ => by simp [Readable, leaves]
  | .like expr pattern escape, hp => by
      intro expr' pattern' escape' hmem
      obtain ⟨rfl, rfl, rfl⟩ := Predicate.like.inj (List.mem_singleton.mp hmem)
      exact isSome_of_add h hp
  | .negate inner, hp => readable_of_collect h inner hp
  | .all items, hp => readable_of_collectAll h items hp
  | .any items, hp => readable_of_collectAll h items hp

theorem readable_of_collectAll {table after : PatternTable} (h : table.Faithful) :
    ∀ items : List Predicate, collectAll table items = .ok after → Readable (leavesAll items)
  | [], _ => nofun
  | p :: rest, hitems => by
      rw [collectAll] at hitems
      cases hp : collect table p with
      | error e => simp [hp] at hitems
      | ok next =>
          rw [hp] at hitems
          exact readable_append.mpr ⟨readable_of_collect h p hp,
            readable_of_collectAll (faithful_of_collect h p hp) rest hitems⟩

end

end PatternTable

namespace Predicate

variable {params : Parameters} {row : Row}

theorem evaluate_eq_stopped {p : Predicate} (h : Readable p.leaves) :
    p.evaluate params row = stopped (p.stop params row) (p.meaning params row) := by
  obtain ⟨patterns, hcollect⟩ := PatternTable.exists_collect [] p h
  have hfaithful := PatternTable.faithful_of_collect PatternTable.faithful_nil p hcollect
  rw [evaluate, hcollect]
  exact evaluateWith_eq_stopped row hfaithful p h

theorem evaluate_eq_ok {p : Predicate} {t : Truth} :
    p.evaluate params row = .ok t ↔
      Readable p.leaves ∧ p.stop params row = none ∧ p.meaning params row = t := by
  by_cases hread : Readable p.leaves
  · rw [evaluate_eq_stopped hread, stopped_eq_ok]
    exact (and_iff_right hread).symm
  · cases hcollect : PatternTable.collect [] p with
    | error e => simp [evaluate, hcollect, hread]
    | ok patterns =>
        exact absurd (PatternTable.readable_of_collect PatternTable.faithful_nil p hcollect) hread

theorem meaningAll_eq_yes {items : List Predicate} :
    meaningAll params row items = .yes ↔ ∀ p ∈ items, p.meaning params row = .yes := by
  induction items with
  | nil => simp [meaningAll]
  | cons p rest ih => rw [meaningAll, Truth.both_eq_yes, ih, List.forall_mem_cons]

theorem all_yes_iff {goesOn : Truth → Bool} (hyes : goesOn .yes = true) {items : List Predicate} :
    stopAmong params row goesOn items = none ∧ meaningAll params row items = .yes ↔
      ∀ p ∈ items, p.stop params row = none ∧ p.meaning params row = .yes := by
  induction items with
  | nil => simp [stopAmong, meaningAll]
  | cons p rest ih =>
      rw [List.forall_mem_cons, ← ih, stopAmong, meaningAll, Truth.both_eq_yes]
      by_cases hp : p.meaning params row = .yes
      · simp [hp, hyes, and_assoc]
      · simp [hp]

end Predicate

open Predicate

variable {params : Parameters} {row : Row} {items : List Predicate}

theorem acceptsOnce_eq_ok {answer : Bool} :
    acceptsOnce items params row = .ok answer ↔
      Readable (leavesAll items) ∧ stopAmong params row (· == .yes) items = none ∧
        (meaningAll params row items == .yes) = answer := by
  cases hcollect : PatternTable.collectAll [] items with
  | error e =>
      have hunreadable : ¬Readable (leavesAll items) := by
        intro h
        obtain ⟨after, hafter⟩ := PatternTable.exists_collectAll [] items h
        rw [hafter] at hcollect
        cases hcollect
      simp [acceptsOnce, Matcher.of, hcollect, hunreadable]
  | ok patterns =>
      have hreadable : Readable (leavesAll items) :=
        PatternTable.readable_of_collectAll PatternTable.faithful_nil items hcollect
      have hfaithful :=
        PatternTable.faithful_of_collectAll PatternTable.faithful_nil items hcollect
      have haccepts : Matcher.acceptsAll patterns params row items = _ :=
        Matcher.acceptsAll_eq_stopped row hfaithful hreadable
      rw [acceptsOnce, Matcher.of, hcollect]
      simp only [Matcher.accepts, haccepts, stopped_eq_ok, hreadable, true_and]

theorem acceptsOnce_eq_true :
    acceptsOnce items params row = .ok true ↔
      ∀ p ∈ items, p.evaluate params row = .ok .yes := by
  rw [acceptsOnce_eq_ok, leavesAll_eq_flatMap, readable_flatMap, beq_iff_eq, all_yes_iff rfl,
    ← forall₂_and]
  simp only [evaluate_eq_ok]

theorem eq_of_acceptsOnce {answer : Bool} (h : acceptsOnce items params row = .ok answer) :
    answer = true ↔ ∀ p ∈ items, p.meaning params row = .yes := by
  obtain ⟨-, -, rfl⟩ := acceptsOnce_eq_ok.mp h
  rw [beq_iff_eq, meaningAll_eq_yes]

end RecordQuery
