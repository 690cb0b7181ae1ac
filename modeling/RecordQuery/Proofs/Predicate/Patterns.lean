import RecordQuery.Proofs.Predicate.Meaning

namespace RecordQuery

namespace PatternTable

variable {table after : PatternTable}

theorem find_eq_tokens? (h : table.Faithful) (key : PatternKey) :
    table.find key = tokens? key := by
  unfold find
  cases hlookup : table.lookup key with
  | some ts => simp only [tokens?, h key ts hlookup]
  | none => rfl

theorem faithful_of_add (h : table.Faithful) {key : PatternKey} (hadd : table.add key = .ok after) :
    after.Faithful := by
  cases hts : Like.tokens? key.2 key.1.toList with
  | some ts =>
      obtain ⟨table', htable', hfaithful⟩ := add_faithful h hts
      obtain rfl := Except.ok.inj (htable'.symm.trans hadd)
      exact hfaithful
  | none =>
      cases hlookup : table.lookup key with
      | some ts =>
          simp only [add, hlookup] at hadd
          exact Except.ok.inj hadd ▸ h
      | none =>
          simp only [add, hlookup, tokens?, hts] at hadd
          cases hadd

mutual

theorem faithful_of_collect {table after : PatternTable} (h : table.Faithful) :
    ∀ p : Predicate, collect table p = .ok after → after.Faithful
  | .literal _, hp => Except.ok.inj hp ▸ h
  | .compare .., hp => Except.ok.inj hp ▸ h
  | .compareFields .., hp => Except.ok.inj hp ▸ h
  | .among .., hp => Except.ok.inj hp ▸ h
  | .isNull _, hp => Except.ok.inj hp ▸ h
  | .isNotNull _, hp => Except.ok.inj hp ▸ h
  | .like _ _ _, hp => faithful_of_add h hp
  | .negate inner, hp => faithful_of_collect h inner hp
  | .all items, hp => faithful_of_collectAll h items hp
  | .any items, hp => faithful_of_collectAll h items hp

theorem faithful_of_collectAll {table after : PatternTable} (h : table.Faithful) :
    ∀ items : List Predicate, collectAll table items = .ok after → after.Faithful
  | [], hitems => Except.ok.inj hitems ▸ h
  | p :: rest, hitems => by
      rw [collectAll] at hitems
      cases hp : collect table p with
      | error e => simp [hp] at hitems
      | ok next =>
          rw [hp] at hitems
          exact faithful_of_collectAll (faithful_of_collect h p hp) rest hitems

end

end PatternTable

namespace Predicate

variable {patterns : PatternTable} (params : Parameters) (row : Row)

mutual

theorem evaluateWith_nil (h : patterns.Faithful) :
    ∀ p : Predicate, p.evaluateWith patterns params row = p.evaluateWith [] params row
  | literal _ => rfl
  | compare .. => rfl
  | compareFields .. => rfl
  | among .. => rfl
  | isNull _ => rfl
  | isNotNull _ => rfl
  | like expr pattern escape => by
      have hfind : patterns.find (pattern, escape) = PatternTable.find [] (pattern, escape) := by
        rw [PatternTable.find_eq_tokens? h, PatternTable.find_eq_tokens? PatternTable.faithful_nil]
      simp only [evaluateWith, likeTruth, hfind]
  | negate inner => by simp only [evaluateWith, evaluateWith_nil h inner]
  | all items => evaluateAll_nil h items
  | any items => evaluateAny_nil h items

theorem evaluateAll_nil (h : patterns.Faithful) : ∀ items : List Predicate,
    evaluateAll patterns params row items = evaluateAll [] params row items
  | [] => rfl
  | p :: rest => by
      simp only [evaluateAll, evaluateWith_nil h p, evaluateAll_nil h rest]

theorem evaluateAny_nil (h : patterns.Faithful) : ∀ items : List Predicate,
    evaluateAny patterns params row items = evaluateAny [] params row items
  | [] => rfl
  | p :: rest => by
      simp only [evaluateAny, evaluateWith_nil h p, evaluateAny_nil h rest]

end

variable {params row}

theorem evaluateWith_of_evaluate {p : Predicate} {t : Truth} (hp : p.evaluate params row = .ok t)
    (h : patterns.Faithful) : p.evaluateWith patterns params row = .ok t := by
  rw [evaluate] at hp
  cases hcollect : PatternTable.collect [] p with
  | error e => simp [hcollect] at hp
  | ok own =>
      rw [hcollect] at hp
      have hown := PatternTable.faithful_of_collect PatternTable.faithful_nil p hcollect
      rw [evaluateWith_nil params row h, ← evaluateWith_nil params row hown]
      exact hp

end Predicate

namespace Matcher

variable {m : Matcher} {predicates : List Predicate} {params : Parameters}

theorem faithful_of (h : Matcher.of predicates params = .ok m) :
    m.predicates = predicates ∧ m.params = params ∧ m.patterns.Faithful := by
  rw [Matcher.of] at h
  cases hcollect : PatternTable.collectAll [] predicates with
  | error e => simp [hcollect] at h
  | ok patterns =>
      rw [hcollect] at h
      obtain rfl := Except.ok.inj h
      exact ⟨rfl, rfl, PatternTable.faithful_of_collectAll PatternTable.faithful_nil _ hcollect⟩

theorem acceptsAll_of_evaluate {patterns : PatternTable} (h : patterns.Faithful) {row : Row}
    {items : List Predicate} (hitems : ∀ p ∈ items, ∃ t, p.evaluate params row = .ok t) :
    ∃ b, acceptsAll patterns params row items = .ok b ∧
      (b = true ↔ ∀ p ∈ items, p.evaluate params row = .ok .yes) := by
  induction items with
  | nil => exact ⟨true, rfl, by simp⟩
  | cons p rest ih =>
      obtain ⟨⟨t, ht⟩, hrest⟩ := List.forall_mem_cons.mp hitems
      have hp := Predicate.evaluateWith_of_evaluate ht h
      by_cases hyes : t = .yes
      · subst hyes
        obtain ⟨b, hb, hiff⟩ := ih hrest
        refine ⟨b, by rw [acceptsAll, hp]; exact hb, ?_⟩
        rw [List.forall_mem_cons, hiff]
        exact (and_iff_right ht).symm
      · refine ⟨false, ?_, ?_⟩
        · rw [acceptsAll, hp]
          cases t with
          | yes => exact absurd rfl hyes
          | no => rfl
          | unknown => rfl
        · rw [List.forall_mem_cons, ht]
          simp [hyes]

end Matcher

end RecordQuery
