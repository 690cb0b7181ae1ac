import Mathlib.Tactic.Common
import RecordQuery.Predicate.Evaluate

namespace RecordQuery

namespace Truth

variable {a b : Truth}

theorem both_eq_yes : a.both b = yes ↔ a = yes ∧ b = yes := by
  cases a <;> cases b <;> simp [both]

theorem either_eq_yes : a.either b = yes ↔ a = yes ∨ b = yes := by
  cases a <;> cases b <;> simp [either]

@[simp] theorem ofBool_eq_yes {b : Bool} : ofBool b = yes ↔ b = true := by
  cases b <;> simp [ofBool]

theorem ofOrdering_eq_yes {test : Ordering → Bool} {o : Option Ordering} :
    ofOrdering test o = yes ↔ ∃ c, o = some c ∧ test c = true := by
  cases o <;> simp [ofOrdering, ofOption]

theorem among_eq_yes {α : Type} {isNull : α → Bool} {compare? : α → α → Option Ordering} {a : α}
    {items : List α} (hnull : isNull a = true → ∀ b, compare? a b = none) :
    among isNull compare? a items = yes ↔ ∃ b ∈ items, compare? a b = some .eq := by
  unfold among
  by_cases ha : isNull a = true
  · simp [ha, hnull ha]
  · by_cases hany : items.any (fun b => compare? a b == some .eq) = true
    · simp only [ha, hany, if_true, Bool.false_eq_true, if_false, true_iff]
      simpa using hany
    · have hnone : ¬∃ b ∈ items, compare? a b = some .eq := by simpa using hany
      simp only [ha, hany, Bool.false_eq_true, if_false, hnone, iff_false]
      split <;> simp

end Truth

namespace Predicate

variable (params : Parameters) (row : Row)

mutual

def meaning : Predicate → Truth
  | literal b => .ofBool b
  | compare expr op operand =>
      match operand.value? params with
      | .ok right => op.test (expr.value row) right
      | .error _ => .unknown
  | compareFields left op right => op.test (left.value row) (right.value row)
  | among expr values => .among Value.isNull Value.compare? (expr.value row) values
  | isNull expr => .ofBool (expr.value row).isNull
  | isNotNull expr => .ofBool !(expr.value row).isNull
  | like expr pattern escape =>
      match (expr.value row).likeText, Like.tokens? escape pattern.toList with
      | some s, some ts => .ofBool (Like.fits Like.exact ts s)
      | _, _ => .unknown
  | negate inner => (meaning inner).negate
  | all items => meaningAll items
  | any items => meaningAny items

def meaningAll : List Predicate → Truth
  | [] => .yes
  | p :: rest => (meaning p).both (meaningAll rest)

def meaningAny : List Predicate → Truth
  | [] => .no
  | p :: rest => (meaning p).either (meaningAny rest)

end

mutual

def Closed : Predicate → Prop
  | compare _ _ operand => ∃ v, operand.value? params = .ok v
  | like _ pattern escape => ∃ ts, Like.tokens? escape pattern.toList = some ts
  | negate inner => Closed inner
  | all items => ClosedAll items
  | any items => ClosedAll items
  | _ => True

def ClosedAll : List Predicate → Prop
  | [] => True
  | p :: rest => Closed p ∧ ClosedAll rest

end

theorem closedAll_iff {items : List Predicate} :
    ClosedAll params items ↔ ∀ p ∈ items, p.Closed params := by
  induction items with
  | nil => simp [ClosedAll]
  | cons p rest ih => simp [ClosedAll, ih]

theorem meaningAny_eq_yes {items : List Predicate} :
    meaningAny params row items = .yes ↔ ∃ p ∈ items, p.meaning params row = .yes := by
  induction items with
  | nil => simp [meaningAny]
  | cons p rest ih => simp [meaningAny, Truth.either_eq_yes, ih]

end Predicate

namespace PatternTable

def Faithful (table : PatternTable) : Prop :=
  ∀ key ts, table.lookup key = some ts → Like.tokens? key.2 key.1.toList = some ts

theorem faithful_nil : Faithful [] := by
  intro key ts h
  cases h

theorem find_of_faithful {table : PatternTable} (h : table.Faithful) {key : PatternKey}
    {ts : List LikeToken} (hts : Like.tokens? key.2 key.1.toList = some ts) :
    table.find key = .ok ts := by
  unfold find
  cases hlookup : table.lookup key with
  | some us =>
      have hus := h key us hlookup
      rw [hts] at hus
      rw [Option.some.inj hus]
  | none => simp only [tokens?, hts]

theorem add_faithful {table : PatternTable} (h : table.Faithful) {key : PatternKey}
    {ts : List LikeToken} (hts : Like.tokens? key.2 key.1.toList = some ts) :
    ∃ after, table.add key = .ok after ∧ after.Faithful := by
  unfold add
  cases hlookup : table.lookup key with
  | some us => exact ⟨table, rfl, h⟩
  | none =>
      refine ⟨table ++ [(key, ts)], by simp only [tokens?, hts], ?_⟩
      intro k us hk
      rw [List.lookup_append] at hk
      cases hkl : List.lookup k table with
      | some vs =>
          rw [hkl] at hk
          exact h k us (hkl.trans hk)
      | none =>
          rw [hkl, Option.none_or, List.lookup_cons] at hk
          cases hkey : k == key with
          | false => simp [hkey] at hk
          | true =>
              obtain rfl := eq_of_beq hkey
              simp only [hkey] at hk
              exact hts.trans hk

mutual

theorem collect_faithful (params : Parameters) {table : PatternTable} (h : table.Faithful) :
    ∀ p : Predicate, p.Closed params → ∃ after, collect table p = .ok after ∧ after.Faithful
  | .literal _, _ => ⟨table, rfl, h⟩
  | .compare .., _ => ⟨table, rfl, h⟩
  | .compareFields .., _ => ⟨table, rfl, h⟩
  | .among .., _ => ⟨table, rfl, h⟩
  | .isNull _, _ => ⟨table, rfl, h⟩
  | .isNotNull _, _ => ⟨table, rfl, h⟩
  | .like _ _ _, hp => add_faithful h hp.choose_spec
  | .negate inner, hp => collect_faithful params h inner hp
  | .all items, hp => collectAll_faithful params h items hp
  | .any items, hp => collectAll_faithful params h items hp

theorem collectAll_faithful (params : Parameters) {table : PatternTable} (h : table.Faithful) :
    ∀ items : List Predicate, Predicate.ClosedAll params items →
      ∃ after, collectAll table items = .ok after ∧ after.Faithful
  | [], _ => ⟨table, rfl, h⟩
  | p :: rest, hp => by
      obtain ⟨first, hfirst, hf⟩ := collect_faithful params h p hp.1
      obtain ⟨after, hafter, ha⟩ := collectAll_faithful params hf rest hp.2
      exact ⟨after, by simp only [collectAll, hfirst, hafter], ha⟩

end

end PatternTable

namespace Predicate

variable {params : Parameters} (row : Row) {patterns : PatternTable}

theorem likeTruth_eq (h : patterns.Faithful) (expr : Expr) {pattern : String}
    {escape : Option Char} (hp : (like expr pattern escape).Closed params) :
    likeTruth patterns row expr (pattern, escape) =
      .ok ((like expr pattern escape).meaning params row) := by
  obtain ⟨ts, hts⟩ := hp
  unfold likeTruth meaning
  cases hs : (expr.value row).likeText with
  | none => rfl
  | some s =>
      have hfind : patterns.find (pattern, escape) = .ok ts :=
        PatternTable.find_of_faithful h hts
      simp only [hfind, hts]

mutual

theorem evaluateWith_eq (h : patterns.Faithful) :
    ∀ p : Predicate, p.Closed params →
      p.evaluateWith patterns params row = .ok (p.meaning params row)
  | literal _, _ => rfl
  | compare expr op operand, hp => by
      obtain ⟨v, hv⟩ := hp
      simp only [evaluateWith, meaning, hv]
  | compareFields .., _ => rfl
  | among .., _ => rfl
  | isNull _, _ => rfl
  | isNotNull _, _ => rfl
  | like expr _ _, hp => likeTruth_eq row h expr hp
  | negate inner, hp => by
      simp only [evaluateWith, meaning, evaluateWith_eq h inner hp]
  | all items, hp => evaluateAll_eq h items hp
  | any items, hp => evaluateAny_eq h items hp

theorem evaluateAll_eq (h : patterns.Faithful) :
    ∀ items : List Predicate, ClosedAll params items →
      evaluateAll patterns params row items = .ok (meaningAll params row items)
  | [], _ => rfl
  | p :: rest, hp => by
      rw [evaluateAll, meaningAll, evaluateWith_eq h p hp.1, evaluateAll_eq h rest hp.2]
      cases p.meaning params row <;> rfl

theorem evaluateAny_eq (h : patterns.Faithful) :
    ∀ items : List Predicate, ClosedAll params items →
      evaluateAny patterns params row items = .ok (meaningAny params row items)
  | [], _ => rfl
  | p :: rest, hp => by
      rw [evaluateAny, meaningAny, evaluateWith_eq h p hp.1, evaluateAny_eq h rest hp.2]
      cases p.meaning params row <;> rfl

end

theorem evaluate_eq {p : Predicate} (hp : p.Closed params) :
    p.evaluate params row = .ok (p.meaning params row) := by
  obtain ⟨patterns, hpatterns, hfaithful⟩ :=
    PatternTable.collect_faithful params PatternTable.faithful_nil p hp
  rw [evaluate, hpatterns]
  exact evaluateWith_eq row hfaithful p hp

end Predicate

namespace Matcher

variable {params : Parameters}

theorem acceptsAll_eq {patterns : PatternTable} (h : patterns.Faithful) (row : Row)
    {items : List Predicate} (hitems : Predicate.ClosedAll params items) :
    acceptsAll patterns params row items =
      .ok (Predicate.meaningAll params row items == .yes) := by
  induction items with
  | nil => rfl
  | cons p rest ih =>
      rw [acceptsAll, Predicate.meaningAll, Predicate.evaluateWith_eq row h p hitems.1]
      cases hp : p.meaning params row with
      | yes =>
          simp only
          rw [ih hitems.2]
          cases Predicate.meaningAll params row rest <;> rfl
      | no => cases Predicate.meaningAll params row rest <;> rfl
      | unknown => cases Predicate.meaningAll params row rest <;> rfl

end Matcher

end RecordQuery
