import RecordQuery.Builder
import RecordQuery.Proofs.Bounds
import RecordQuery.Proofs.Predicate.Meaning

namespace RecordQuery

section Chunks

variable {α : Type} {size : Nat}

theorem chunksIn_flatten (hsize : 0 < size) :
    ∀ (n : Nat) (l : List α), l.length ≤ n → (chunksIn size n l).flatten = l := by
  intro n
  induction n with
  | zero =>
      intro l hl
      rw [List.length_eq_zero_iff.mp (Nat.le_zero.mp hl)]
      rfl
  | succ n ih =>
      intro l hl
      cases l with
      | nil => rfl
      | cons a rest =>
          have hdrop : ((a :: rest).drop size).length ≤ n := by
            simp only [List.length_drop, List.length_cons] at hl ⊢
            omega
          rw [chunksIn, List.flatten_cons, ih _ hdrop, List.take_append_drop]
          simp

theorem chunks_flatten (hsize : 0 < size) (l : List α) : (chunks size l).flatten = l :=
  chunksIn_flatten hsize l.length l (Nat.le_refl _)

theorem exists_mem_chunks (hsize : 0 < size) (l : List α) (P : α → Prop) :
    (∃ part ∈ chunks size l, ∃ a ∈ part, P a) ↔ ∃ a ∈ l, P a := by
  constructor
  · rintro ⟨part, hpart, a, ha, hp⟩
    refine ⟨a, ?_, hp⟩
    rw [← chunks_flatten hsize l]
    exact List.mem_flatten_of_mem hpart ha
  · rintro ⟨a, ha, hp⟩
    rw [← chunks_flatten hsize l] at ha
    obtain ⟨part, hpart, hmem⟩ := List.mem_flatten.mp ha
    exact ⟨part, hpart, a, hmem, hp⟩

theorem chunks_ne_nil {l : List α} (hl : l ≠ []) : chunks size l ≠ [] := by
  cases l with
  | nil => exact absurd rfl hl
  | cons a rest => simp [chunks, chunksIn]

end Chunks

theorem Settings.listLimit_pos {settings : Settings} (h : settings.check = .ok ()) :
    0 < settings.listLimit := by
  unfold check at h
  split at h
  · cases h
  · omega

namespace Group

theorem resolvedAll_append (groups others : List Group) :
    resolvedAll (groups ++ others) = resolvedAll groups ++ resolvedAll others := by
  induction groups with
  | nil => rfl
  | cons g rest ih =>
      rw [List.cons_append, resolvedAll, resolvedAll, ih]
      split <;> rfl

theorem mem_resolved_push {g : Group} {p q : Predicate} :
    q ∈ (g.push p).resolved ↔ q = p ∨ q ∈ g.resolved := by
  obtain ⟨direct, groups⟩ := g
  simp only [push, resolved, Group.direct, Group.groups, List.mem_append, List.mem_singleton]
  tauto

theorem resolved_attach (g nested : Group) :
    (g.attach nested).resolved =
      g.resolved ++ if nested.resolved.isEmpty then [] else [.anyOf nested.resolved] := by
  obtain ⟨direct, groups⟩ := g
  simp only [attach, resolved, Group.direct, Group.groups, resolvedAll_append, List.append_assoc]
  rfl

end Group

namespace Predicate

variable {params : Parameters} {row : Row} {p : Predicate}

theorem closed_anyOf {items : List Predicate} (h : ∀ p ∈ items, p.Closed params) :
    (anyOf items).Closed params := by
  match items with
  | [] => trivial
  | [p] => exact h p (List.mem_singleton_self p)
  | p :: q :: rest => exact (closedAll_iff params).mpr h

theorem meaning_anyOf_eq_yes {items : List Predicate} :
    (anyOf items).meaning params row = .yes ↔ ∃ p ∈ items, p.meaning params row = .yes := by
  match items with
  | [] => simp [anyOf, meaning, Truth.ofBool]
  | [p] => simp [anyOf]
  | p :: q :: rest => exact meaningAny_eq_yes params row

end Predicate

namespace Builder

def Accepts (b : Builder) (params : Parameters) (row : Row) : Prop :=
  ∀ p ∈ b.predicates, p.evaluate params row = .ok .yes

variable {b : Builder} {params : Parameters} {row : Row} {field : String}

theorem push_injective (b : Builder) : Function.Injective b.push := by
  intro p q h
  have hdirect : b.root.direct ++ [p] = b.root.direct ++ [q] :=
    congrArg (fun after => after.root.direct) h
  exact List.singleton_inj.mp (List.append_cancel_left hdirect)

theorem evaluate_yes_iff {p : Predicate} (hp : p.Closed params) :
    p.evaluate params row = .ok .yes ↔ p.meaning params row = .yes := by
  rw [Predicate.evaluate_eq row hp, Except.ok.injEq]

theorem accepts_push {p : Predicate} (hp : p.Closed params) :
    (b.push p).Accepts params row ↔ b.Accepts params row ∧ p.meaning params row = .yes := by
  simp only [Accepts, predicates, push, Group.mem_resolved_push]
  rw [← evaluate_yes_iff hp]
  constructor
  · intro h
    exact ⟨fun q hq => h q (.inr hq), h p (.inl rfl)⟩
  · rintro ⟨hb, hp⟩ q (rfl | hq)
    · exact hp
    · exact hb q hq

theorem accepts_attachDirect {ps : List Predicate} (hne : ps ≠ [])
    (hps : ∀ p ∈ ps, p.Closed params) :
    (b.attachDirect ps).Accepts params row ↔
      b.Accepts params row ∧ ∃ p ∈ ps, p.meaning params row = .yes := by
  have hresolved : (Group.mk ps []).resolved = ps := by simp [Group.resolved, Group.resolvedAll]
  have hempty : ps.isEmpty = false := by simpa using hne
  simp only [Accepts, predicates, attachDirect, Group.resolved_attach, hresolved, hempty,
    List.mem_append, Bool.false_eq_true, if_false, List.mem_singleton]
  rw [← Predicate.meaning_anyOf_eq_yes, ← evaluate_yes_iff (Predicate.closed_anyOf hps)]
  constructor
  · intro h
    exact ⟨fun q hq => h q (.inl hq), h _ (.inr rfl)⟩
  · rintro ⟨hb, hany⟩ q (hq | rfl)
    · exact hb q hq
    · exact hany

theorem accepts_compare {op : CompareOp} {value : Option Value} :
    (b.compare field op value).Accepts params row ↔
      b.Accepts params row ∧ ∀ v, value = some v → op.test (Row.value row field) v = .yes := by
  cases value with
  | none => simp [compare, pushSome]
  | some v =>
      have hclosed : (Predicate.compare (.field field) op (.value v)).Closed params := ⟨v, rfl⟩
      rw [compare, Option.map_some, pushSome, accepts_push hclosed]
      simp [Predicate.meaning, Operand.value?, Expr.value]

theorem closed_boolPredicate (value : Bool) : (boolPredicate field value).Closed params := by
  cases value with
  | true => exact ⟨_, rfl⟩
  | false => exact ⟨trivial, ⟨_, rfl⟩, trivial⟩

theorem accepts_equalBool {value : Option Bool} :
    (b.equalBool field value).Accepts params row ↔
      b.Accepts params row ∧
        ∀ v, value = some v → (boolPredicate field v).meaning params row = .yes := by
  cases value with
  | none => simp [equalBool, pushSome]
  | some v =>
      rw [equalBool, Option.map_some, pushSome, accepts_push (closed_boolPredicate v)]
      simp

theorem closed_listPredicate (values : List Value) :
    (listPredicate (.field field) values).Closed params := by
  match values with
  | [] => trivial
  | [v] => exact ⟨v, rfl⟩
  | v :: w :: rest => trivial

theorem compare?_null {u : Value} (h : u.isNull = true) (v : Value) : u.compare? v = none := by
  cases u <;> first | rfl | cases h

theorem meaning_listPredicate (values : List Value) :
    (listPredicate (.field field) values).meaning params row = .yes ↔
      ∃ v ∈ values, (Row.value row field).compare? v = some .eq := by
  match values with
  | [] => simp [listPredicate, Predicate.meaning, Truth.among_eq_yes compare?_null]
  | [v] =>
      simp [listPredicate, Predicate.equal, Predicate.meaning, Operand.value?, CompareOp.test,
        Truth.ofOrdering_eq_yes, CompareOp.holds, Expr.value]
  | v :: w :: rest =>
      simp only [listPredicate, Predicate.meaning, Truth.among_eq_yes compare?_null, Expr.value]

theorem accepts_among (hlimit : 0 < b.settings.listLimit) {values : List Value} :
    (b.among field values).Accepts params row ↔ b.Accepts params row ∧
      (values ≠ [] → ∃ v ∈ values, (Row.value row field).compare? v = some .eq) := by
  unfold among
  split
  · rename_i h
    simp [List.isEmpty_iff.mp h]
  · rename_i hempty
    have hne : values ≠ [] := fun h => hempty (by simp [h])
    split
    · rw [accepts_push (closed_listPredicate values), meaning_listPredicate]
      simp [hne]
    · have hclosed : ∀ p ∈ (chunks b.settings.listLimit values).map (listPredicate (.field field)),
          p.Closed params := by
        intro p hp
        obtain ⟨part, -, rfl⟩ := List.mem_map.mp hp
        exact closed_listPredicate part
      rw [accepts_attachDirect (by simpa using chunks_ne_nil hne) hclosed]
      simp only [List.mem_map, exists_exists_and_eq_and, meaning_listPredicate,
        exists_mem_chunks hlimit, hne, ne_eq, not_false_eq_true, true_implies]

section

variable {α : Type} [Ord α] [Std.TransOrd α] [DecidableEq α]

theorem accepts_between {toValue : α → Value} {x : α}
    (hx : ∀ a, (Row.value row field).compare? (toValue a) = some (Ord.compare x a))
    {range : Option (Bounds α)} :
    (between toValue b field range).Accepts params row ↔
      b.Accepts params row ∧ ∀ r, range = some r → r.Within x := by
  have htest : ∀ (op : CompareOp) (a : α), op.test (Row.value row field) (toValue a) = .yes ↔
      op.holds (Ord.compare x a) = true := by
    intro op a
    simp [CompareOp.test, hx, Truth.ofOrdering_eq_yes]
  have hge : ∀ a, (Ord.compare a x).isLE = true ↔ CompareOp.ge.holds (Ord.compare x a) = true := by
    intro a
    have hswap : Ord.compare a x = (Ord.compare x a).swap := Std.OrientedCmp.eq_swap
    rw [hswap]
    cases Ord.compare x a <;> decide
  have hle : ∀ a, (Ord.compare x a).isLE = true ↔ CompareOp.le.holds (Ord.compare x a) = true := by
    intro a
    cases Ord.compare x a <;> decide
  cases range with
  | none => simp [between]
  | some r =>
      simp only [between, Option.some.injEq, forall_eq', Bounds.within_iff, hge, hle]
      cases hlow : r.lower with
      | none =>
          cases hup : r.upper with
          | none => simp [Bounds.isSingle, hlow, accepts_compare]
          | some high => simp [Bounds.isSingle, hlow, accepts_compare, htest]
      | some low =>
          cases hup : r.upper with
          | none => simp [Bounds.isSingle, hlow, hup, accepts_compare, htest]
          | some high =>
              by_cases heq : low = high
              · subst heq
                have hboth : CompareOp.eq.holds (Ord.compare x low) = true ↔
                    CompareOp.ge.holds (Ord.compare x low) = true ∧
                      CompareOp.le.holds (Ord.compare x low) = true := by
                  cases Ord.compare x low <;> decide
                simp [Bounds.isSingle, hlow, hup, accepts_compare, htest, hboth]
              · simp [Bounds.isSingle, hlow, hup, heq, accepts_compare, htest, and_assoc]

end

end Builder

end RecordQuery
