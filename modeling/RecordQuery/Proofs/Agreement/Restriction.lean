import RecordQuery.Proofs.Agreement.Rows
import RecordQuery.Proofs.Predicate.Acceptance
import RecordQuery.Proofs.Sql.Reading

namespace RecordQuery

namespace Truth

structure Tolerance (R : Bool → Truth → Truth → Prop) : Prop where
  refl (even : Bool) (a : Truth) : R even a a
  negate {even : Bool} {a b : Truth} : R (!even) a b → R even a.negate b.negate
  both {even : Bool} {a b c d : Truth} : R even a b → R even c d → R even (a.both c) (b.both d)

theorem negate_negate (a : Truth) : a.negate.negate = a := by
  cases a <;> rfl

theorem either_eq_negate (a b : Truth) : a.either b = (a.negate.both b.negate).negate := by
  rw [negate_both, negate_negate, negate_negate]

theorem Tolerance.either {R : Bool → Truth → Truth → Prop} (hR : Tolerance R) {even : Bool}
    {a b c d : Truth} (hab : R even a b) (hcd : R even c d) : R even (a.either c) (b.either d) := by
  rw [← Bool.not_not even] at hab hcd
  rw [either_eq_negate, either_eq_negate]
  exact hR.negate (hR.both (hR.negate hab) (hR.negate hcd))

def Open (a b : Truth) : Prop := a = unknown ∨ a = b

def Denied (even : Bool) (a b : Truth) : Prop := a = b ∨ a = unknown ∧ b = ofBool !even

theorem tolerance_open : Tolerance fun _ => Open where
  refl _ _ := .inr rfl
  negate := by
    rintro - a b (rfl | rfl)
    · exact .inl rfl
    · exact .inr rfl
  both := by
    rintro - a b c d (rfl | rfl) (rfl | rfl)
    · exact .inl rfl
    · cases b <;> cases c <;> simp [Open, both]
    · cases a <;> cases d <;> simp [Open, both]
    · exact .inr rfl

theorem tolerance_denied : Tolerance Denied where
  refl _ _ := .inl rfl
  negate := by
    rintro even a b (rfl | ⟨rfl, rfl⟩)
    · exact .inl rfl
    · exact .inr ⟨rfl, by cases even <;> rfl⟩
  both := by
    rintro even a b c d (rfl | ⟨rfl, rfl⟩) (rfl | ⟨rfl, rfl⟩)
    · exact .inl rfl
    · cases even <;> cases a <;> simp [Denied, both, ofBool]
    · cases even <;> cases c <;> simp [Denied, both, ofBool]
    · cases even <;> simp [Denied, both, ofBool]

variable {a b : Truth}

theorem Open.yes_of_yes (h : a.Open b) (ha : a = yes) : b = yes := by
  subst ha
  rcases h with h | rfl
  · cases h
  · rfl

theorem Denied.yes_of_yes (h : Denied true a b) (hb : b = yes) : a = yes := by
  subst hb
  rcases h with rfl | ⟨-, h⟩
  · rfl
  · cases h

theorem both_yes (a : Truth) : a.both yes = a := by
  cases a <;> rfl

theorem either_no (a : Truth) : a.either no = a := by
  cases a <;> rfl

end Truth

namespace Predicate

section

variable (value : Predicate → Truth)

mutual

def truthBy : Predicate → Truth
  | literal b => .ofBool b
  | negate inner => (truthBy inner).negate
  | all items => truthByAll items
  | any items => truthByAny items
  | leaf => value leaf

def truthByAll : List Predicate → Truth
  | [] => .yes
  | p :: rest => (truthBy p).both (truthByAll rest)

def truthByAny : List Predicate → Truth
  | [] => .no
  | p :: rest => (truthBy p).either (truthByAny rest)

end

theorem truthBy_allOf (items : List Predicate) :
    (allOf items).truthBy value = truthByAll value items := by
  match items with
  | [] => rfl
  | [p] => exact (Truth.both_yes _).symm
  | p :: q :: rest => rfl

theorem truthBy_anyOf (items : List Predicate) :
    (anyOf items).truthBy value = truthByAny value items := by
  match items with
  | [] => rfl
  | [p] => exact (Truth.either_no _).symm
  | p :: q :: rest => rfl

end

variable (params : Parameters) (row : Row)

def Valued (value : Predicate → Truth) (p : Predicate) : Prop :=
  ∀ leaf ∈ p.leaves, (∀ b, leaf ≠ literal b) → leaf.evaluate params row = .ok (value leaf)

mutual

/-- For each empty list that is searched for something null, whether it stands under an even number
of negations. -/
def voids : Bool → Predicate → List Bool
  | even, among expr [] => if (expr.value row).isNull then [even] else []
  | even, negate inner => voids (!even) inner
  | even, all items => voidsAll even items
  | even, any items => voidsAll even items
  | _, _ => []

def voidsAll : Bool → List Predicate → List Bool
  | _, [] => []
  | even, p :: rest => voids even p ++ voidsAll even rest

end

variable {params row} {value : Predicate → Truth} {R : Bool → Truth → Truth → Prop}

theorem relates_leaf (hR : Truth.Tolerance R) (even : Bool) {leaf : Predicate}
    (h : leaf.Valued params row value) (hclosed : leaf.Closed params) (hleaf : leaf.leaves = [leaf])
    (htruth : leaf.truthBy value = value leaf) (hconstant : ∀ b, leaf ≠ literal b) :
    R even (leaf.meaning params row) (leaf.truthBy value) := by
  have hvalue := h leaf (hleaf ▸ List.mem_singleton_self leaf) hconstant
  rw [evaluate_eq row hclosed] at hvalue
  rw [htruth, Except.ok.inj hvalue]
  exact hR.refl even _

theorem leavesAll_subset_allOf (items : List Predicate) :
    leavesAll items ⊆ (allOf items).leaves := by
  match items with
  | [] => exact List.nil_subset _
  | [p] => simp [leavesAll, allOf]
  | p :: q :: rest => exact List.Subset.refl _

theorem leavesAll_subset_anyOf (items : List Predicate) :
    leavesAll items ⊆ (anyOf items).leaves := by
  match items with
  | [] => exact List.nil_subset _
  | [p] => simp [leavesAll, anyOf]
  | p :: q :: rest => exact List.Subset.refl _

theorem get?_of_param {name : String} {v : Value} (h : (Operand.param name).value? params = .ok v) :
    params.get? name = some v := by
  rw [Operand.value?] at h
  split at h
  · rename_i w hw
    exact Except.ok.inj h ▸ hw
  · cases h

theorem relates_void (hR : Truth.Tolerance R) {even : Bool} {expr : Expr}
    (hvoids : ∀ b ∈ (among expr []).voids row even, R b .unknown .no) :
    R even ((among expr []).meaning params row) .no := by
  rw [meaning, Truth.among]
  split
  · rename_i hnull
    exact hvoids even (by simp [voids, hnull])
  · exact hR.refl even .no

mutual

theorem relates_normal (hR : Truth.Tolerance R) : ∀ (even : Bool) (p : Predicate), p.Closed params →
    (p.normal params).Valued params row value → (∀ b ∈ p.voids row even, R b .unknown .no) →
    R even (p.meaning params row) ((p.normal params).truthBy value)
  | even, literal b, _, _, _ => hR.refl even _
  | even, compare expr op (.value v), hp, h, _ => relates_leaf hR even h hp rfl rfl nofun
  | even, compare expr op (.param name), ⟨v, hv⟩, h, _ => by
      have hnormal : (compare expr op (.param name)).normal params =
          compare expr op (.value v) := by
        rw [normal, get?_of_param hv]
      have hmeaning : (compare expr op (.param name)).meaning params row =
          (compare expr op (.value v)).meaning params row := by
        rw [meaning, hv]
        rfl
      rw [hnormal] at h ⊢
      rw [hmeaning]
      exact relates_leaf hR even h ⟨v, rfl⟩ rfl rfl nofun
  | even, compareFields left op right, hp, h, _ => relates_leaf hR even h hp rfl rfl nofun
  | even, among expr [], _, _, hvoids => relates_void hR hvoids
  | even, among expr (v :: rest), hp, h, _ => relates_leaf hR even h hp rfl rfl nofun
  | even, isNull expr, hp, h, _ => relates_leaf hR even h hp rfl rfl nofun
  | even, isNotNull expr, hp, h, _ => relates_leaf hR even h hp rfl rfl nofun
  | even, like expr pattern escape, hp, h, _ => relates_leaf hR even h hp rfl rfl nofun
  | even, negate inner, hp, h, hvoids => hR.negate (relates_normal hR (!even) inner hp h hvoids)
  | even, all items, hp, h, hvoids => by
      rw [normal, truthBy_allOf]
      exact relates_all hR even items hp
        (fun leaf hleaf => h leaf (leavesAll_subset_allOf _ hleaf)) hvoids
  | even, any items, hp, h, hvoids => by
      rw [normal, truthBy_anyOf]
      exact relates_any hR even items hp
        (fun leaf hleaf => h leaf (leavesAll_subset_anyOf _ hleaf)) hvoids

theorem relates_all (hR : Truth.Tolerance R) : ∀ (even : Bool) (items : List Predicate),
    ClosedAll params items → (all (normals params items)).Valued params row value →
    (∀ b ∈ voidsAll row even items, R b .unknown .no) →
    R even (meaningAll params row items) (truthByAll value (normals params items))
  | even, [], _, _, _ => hR.refl even .yes
  | even, p :: rest, ⟨hp, hrest⟩, h, hvoids =>
      hR.both
        (relates_normal hR even p hp (fun leaf hleaf => h leaf (List.mem_append_left _ hleaf))
          fun b hb => hvoids b (List.mem_append_left _ hb))
        (relates_all hR even rest hrest (fun leaf hleaf => h leaf (List.mem_append_right _ hleaf))
          fun b hb => hvoids b (List.mem_append_right _ hb))

theorem relates_any (hR : Truth.Tolerance R) : ∀ (even : Bool) (items : List Predicate),
    ClosedAll params items → (any (normals params items)).Valued params row value →
    (∀ b ∈ voidsAll row even items, R b .unknown .no) →
    R even (meaningAny params row items) (truthByAny value (normals params items))
  | even, [], _, _, _ => hR.refl even .no
  | even, p :: rest, ⟨hp, hrest⟩, h, hvoids =>
      hR.either
        (relates_normal hR even p hp (fun leaf hleaf => h leaf (List.mem_append_left _ hleaf))
          fun b hb => hvoids b (List.mem_append_left _ hb))
        (relates_any hR even rest hrest (fun leaf hleaf => h leaf (List.mem_append_right _ hleaf))
          fun b hb => hvoids b (List.mem_append_right _ hb))

end

theorem truthBy_normal {p : Predicate} (hp : p.Closed params)
    (h : (p.normal params).Valued params row value) :
    (p.meaning params row = .yes → (p.normal params).truthBy value = .yes) ∧
      (false ∉ p.voids row true →
        (p.meaning params row = .yes ↔ (p.normal params).truthBy value = .yes)) := by
  have hopen := relates_normal Truth.tolerance_open true p hp h fun _ _ => .inl rfl
  refine ⟨hopen.yes_of_yes, fun hvoids => ⟨hopen.yes_of_yes, ?_⟩⟩
  have hdenied := relates_normal Truth.tolerance_denied true p hp h fun even heven => by
    cases even with
    | true => exact .inr ⟨rfl, rfl⟩
    | false => exact absurd heven hvoids
  exact hdenied.yes_of_yes

end Predicate

namespace Sql

open RecordQuery.Sql.Grammar

theorem Select.reads_statement (s : Select) (r : Reading) :
    Reads ((s.statement embedded).write embedded) (s.statement embedded).values r ↔
      r = s.reading := by
  obtain ⟨ts, hts, hselection⟩ := s.renders_statement
  constructor
  · rintro ⟨us, hus, hread⟩
    exact selection_inj hread hselection (Option.some.inj (hus.symm.trans hts.filled))
  · rintro rfl
    exact ⟨ts, hts.filled, hselection⟩

end Sql

namespace Matcher

open RecordQuery.Sql RecordQuery.Sql.Grammar

theorem agrees_with_statement {q : Query}
    (hnames : ∀ name ∈ Predicate.parameterNamesAll q.predicates, q.bindings.contains name = true)
    (hpatterns : ∀ expr pattern escape,
      .like expr pattern escape ∈ Predicate.leavesAll q.predicates →
        (Like.tokens? escape pattern.toList).isSome = true)
    (projection : Projection) (row : Row) :
    ∃ m accepted st, Matcher.of q.predicates q.bindings = .ok m ∧ m.accepts row = .ok accepted ∧
      render embedded q projection = .ok st ∧ (∃ r, Reads (st.write embedded) st.values r) ∧
      ∀ r value, Reads (st.write embedded) st.values r →
        r.condition.Valued q.bindings row value →
        (accepted = true → r.condition.truthBy value = .yes) ∧
          (false ∉ Predicate.voidsAll row true q.predicates →
            (accepted = true ↔ r.condition.truthBy value = .yes)) := by
  have hclosed := Predicate.closedAll_of_bound q.predicates hnames hpatterns
  obtain ⟨patterns, hcollect, hfaithful⟩ :=
    PatternTable.collectAll_faithful q.bindings PatternTable.faithful_nil q.predicates hclosed
  obtain ⟨conditions, hconditions⟩ := Condition.exists_ofPredicates q.predicates hclosed
  let s : Select :=
    ⟨q.entity, projection, q.distinct, conditions, q.orders, q.first, q.limit⟩
  have hrender : render embedded q projection = .ok (s.statement embedded) := by
    rw [render, Select.ofQuery, hconditions]
    rfl
  refine ⟨⟨q.predicates, q.bindings, patterns⟩, _, _, by rw [Matcher.of, hcollect],
    acceptsAll_eq hfaithful row hclosed, hrender,
    ⟨s.reading, (s.reads_statement _).mpr rfl⟩, ?_⟩
  intro r value hr hvalued
  obtain rfl := (s.reads_statement r).mp hr
  have hcondition : s.reading.condition = (Predicate.all q.predicates).normal q.bindings := by
    rw [Predicate.normal, ← Condition.trees_ofPredicates hconditions]
    rfl
  rw [hcondition] at hvalued ⊢
  rw [beq_iff_eq]
  exact Predicate.truthBy_normal (p := .all q.predicates) hclosed hvalued

section

def nestedVoids : Query where
  entity := "person"
  predicates := [
    .any [.negate (.negate (.among (.field "age") [])),
      .all [.isNull (.field "age"), .negate (.like (.lower (.field "name")) "b%" none),
        .compare (.field "name") .eq (.param "named"), .all []]],
    .negate (.any [])]
  parameters := [("named", .text "Ann")]

def ageless : Row := .ofList [("age", .null), ("name", .text "Ann")]

def nestedSelect : Select where
  table := "person"
  projection := .rows
  distinct := false
  conditions := [
    .any (.negate (.negate (.constant false)))
      [.all (.isNull (.field "age")) [.negate (.like (.lower (.field "name")) "b%" none),
        .compare (.field "name") .eq (.text "Ann"), .constant true]],
    .negate (.constant false)]
  orders := []
  first := none
  limit := none

theorem agrees_with_statement_nested :
    ∃ m st r, Matcher.of nestedVoids.predicates nestedVoids.bindings = .ok m ∧
      m.accepts ageless = .ok true ∧ render embedded nestedVoids .rows = .ok st ∧
      st.write embedded = "SELECT * FROM \"person\" WHERE (NOT (NOT (0)) OR " ++
        "(\"age\" IS NULL AND NOT (lower(\"name\") LIKE ?) AND \"name\" = ? AND 1)) AND NOT (0)" ∧
      Reads (st.write embedded) st.values r ∧
      r.condition.truthBy (·.result nestedVoids.bindings ageless) = .yes := by
  have hlikes : ∀ expr pattern escape,
      .like expr pattern escape ∈ Predicate.leavesAll nestedVoids.predicates →
        (Like.tokens? escape pattern.toList).isSome = true := by
    intro expr pattern escape hmem
    obtain ⟨rfl, rfl, rfl⟩ : expr = .lower (.field "name") ∧ pattern = "b%" ∧ escape = none := by
      simpa [nestedVoids, Predicate.leavesAll, Predicate.leaves] using hmem
    decide +kernel
  have hvalued : nestedSelect.reading.condition.Valued nestedVoids.bindings ageless
      (·.result nestedVoids.bindings ageless) := by
    intro leaf hleaf _
    have hall : nestedSelect.reading.condition.leaves.all
        (fun leaf => (leaf.evaluate nestedVoids.bindings ageless).isOk) = true := by
      decide +kernel
    have hok := List.all_eq_true.mp hall leaf hleaf
    change leaf.evaluate _ _ = .ok (leaf.result _ _)
    rw [Predicate.result]
    cases hresult : leaf.evaluate nestedVoids.bindings ageless with
    | ok t => rfl
    | error e =>
        rw [hresult] at hok
        cases hok
  obtain ⟨m, accepted, st, hm, haccepted, hst, -, h⟩ :=
    agrees_with_statement (q := nestedVoids) (by decide +kernel) hlikes .rows ageless
  obtain rfl : nestedSelect.statement embedded = st := Except.ok.inj (rfl.symm.trans hst)
  have hreads := (nestedSelect.reads_statement _).mpr rfl
  have htruth : nestedSelect.reading.condition.truthBy (·.result nestedVoids.bindings ageless) =
      .yes := by decide +kernel
  have hyes : accepted = true :=
    ((h _ _ hreads hvalued).2 (by decide +kernel)).mpr htruth
  exact ⟨m, _, _, hm, hyes ▸ haccepted, hst, by decide +kernel, hreads, htruth⟩

def withoutAges : Query :=
  { entity := "person", predicates := [.negate (.among (.field "age") [])] }

theorem not_agrees_with_statement_negated :
    ∃ st r, acceptsOnce withoutAges.predicates withoutAges.bindings ageless = .ok false ∧
      render embedded withoutAges .rows = .ok st ∧
      st.write embedded = "SELECT * FROM \"person\" WHERE NOT (0)" ∧
      Reads (st.write embedded) st.values r ∧
      ∀ value, r.condition.Valued withoutAges.bindings ageless value ∧
        r.condition.truthBy value = .yes := by
  let s : Select := ⟨"person", .rows, false, [.negate (.constant false)], [], none, none⟩
  refine ⟨s.statement embedded, s.reading, by decide +kernel, rfl, by decide +kernel,
    (s.reads_statement _).mpr rfl, fun value => ⟨?_, rfl⟩⟩
  intro leaf hleaf hconstant
  exact absurd (List.mem_singleton.mp hleaf) (hconstant false)

end

end Matcher

end RecordQuery
