import RecordQuery.Proofs.Data.Keyed
import RecordQuery.Proofs.Predicate.Matching

namespace RecordQuery

namespace Predicate

theorem parameterNamesAll_eq_flatMap (items : List Predicate) :
    parameterNamesAll items = items.flatMap parameterNames := by
  induction items with
  | nil => rfl
  | cons p rest ih => rw [parameterNamesAll, List.flatMap_cons, ih]

end Predicate

namespace PatternTable

variable {table : PatternTable} {fault : QueryFault}

theorem add_error {key : PatternKey} (h : table.add key = .error fault) :
    fault = .danglingEscape key.1 := by
  unfold add tokens? at h
  split at h
  · cases h
  · split at h
    · cases h
    · rename_i hread
      split at hread
      · cases hread
      · rw [← Except.error.inj h, ← Except.error.inj hread]

theorem foldlM_add_error {keys : List PatternKey} (h : keys.foldlM add table = .error fault) :
    ∃ key ∈ keys, fault = .danglingEscape key.1 := by
  induction keys generalizing table with
  | nil => cases h
  | cons key rest ih =>
      rw [List.foldlM_cons] at h
      cases hadd : table.add key with
      | error e =>
          rw [hadd] at h
          obtain rfl := Except.error.inj h
          exact ⟨key, List.mem_cons_self .., add_error hadd⟩
      | ok next =>
          rw [hadd] at h
          obtain ⟨k, hk, hfault⟩ := ih h
          exact ⟨k, List.mem_cons_of_mem _ hk, hfault⟩

theorem collectAll_error {items : List Predicate} (h : collectAll table items = .error fault) :
    ∃ key ∈ Predicate.patternKeys items, fault = .danglingEscape key.1 := by
  rw [collectAll_eq_foldlM] at h
  exact foldlM_add_error h

end PatternTable

section

variable {params : Parameters} {row : Row} {name : String}

theorem unbound_of_stopped {α : Type} {name? : Option String} {a : α}
    (h : stopped name? a = .error (.unboundParameter name)) : name? = some name := by
  cases name? with
  | none => cases h
  | some other => rw [QueryFault.unboundParameter.inj (Except.error.inj h)]

theorem unbound_of_acceptsOnce {items : List Predicate}
    (h : acceptsOnce items params row = .error (.unboundParameter name)) :
    name ∈ items.flatMap Predicate.parameterNames ∧ params.contains name = false := by
  rw [acceptsOnce, Matcher.of] at h
  cases hcollect : PatternTable.collectAll [] items with
  | error fault =>
      obtain ⟨key, -, rfl⟩ := PatternTable.collectAll_error hcollect
      rw [hcollect] at h
      cases h
  | ok patterns =>
      rw [hcollect] at h
      have hread := PatternTable.readable_of_collectAll PatternTable.faithful_nil items hcollect
      have hfaithful :=
        PatternTable.faithful_of_collectAll PatternTable.faithful_nil items hcollect
      have hstop := unbound_of_stopped
        ((Matcher.acceptsAll_eq_stopped row hfaithful hread).symm.trans h)
      rw [← Predicate.parameterNamesAll_eq_flatMap]
      exact Predicate.unbound_of_stopAmong items hstop

theorem unbound_of_evaluate {p : Predicate}
    (h : p.evaluate params row = .error (.unboundParameter name)) :
    name ∈ p.parameterNames ∧ params.contains name = false := by
  by_cases hread : Predicate.Readable p.leaves
  · rw [Predicate.evaluate_eq_stopped hread] at h
    exact Predicate.unbound_of_stop p (unbound_of_stopped h)
  · rw [Predicate.evaluate] at h
    cases hcollect : PatternTable.collect [] p with
    | ok patterns =>
        exact absurd (PatternTable.readable_of_collect PatternTable.faithful_nil p hcollect) hread
    | error fault =>
        rw [PatternTable.collect_eq_foldlM] at hcollect
        obtain ⟨key, -, rfl⟩ := PatternTable.foldlM_add_error hcollect
        rw [PatternTable.collect_eq_foldlM, hcollect] at h
        cases h

end

namespace Query

variable {q : Query} {name : String}

theorem contains_bindings : q.bindings.contains name = true ↔ name ∈ q.parameters.map Prod.fst :=
  Keyed.contains_ofList

theorem not_contains_bindings :
    q.bindings.contains name = false ↔ name ∉ q.parameters.map Prod.fst := by
  rw [← contains_bindings, Bool.not_eq_true]

theorem unbound?_eq_some_iff : q.unbound? = some name ↔
    ∃ front back, q.predicates.flatMap Predicate.parameterNames = front ++ name :: back ∧
      (∀ n ∈ front, n ∈ q.parameters.map Prod.fst) ∧ name ∉ q.parameters.map Prod.fst := by
  rw [unbound?, unboundIn, List.find?_eq_some_iff_append, Predicate.parameterNamesAll_eq_flatMap]
  simp only [Bool.not_eq_true', not_contains_bindings, Bool.not_not, contains_bindings]
  constructor
  · rintro ⟨hname, front, back, hnames, hfront⟩
    exact ⟨front, back, hnames, hfront, hname⟩
  · rintro ⟨front, back, hnames, hfront, hname⟩
    exact ⟨hname, front, back, hnames, hfront⟩

theorem unbound?_eq_none_iff : q.unbound? = none ↔
    ∀ n ∈ q.predicates.flatMap Predicate.parameterNames, n ∈ q.parameters.map Prod.fst := by
  rw [unbound?, unboundIn, List.find?_eq_none, Predicate.parameterNamesAll_eq_flatMap]
  simp only [Bool.not_eq_true', Bool.not_eq_false, contains_bindings]

end Query

namespace Sql

theorem render_fault_exact (d : Dialect) (q : Query) (projection : Projection) :
    let names := q.predicates.flatMap Predicate.parameterNames
    let bound := q.parameters.map Prod.fst
    ((∃ fault, render d q projection = .error fault) ↔ ∃ name ∈ names, name ∉ bound) ∧
      (∀ fault, render d q projection = .error fault ↔
        ∃ front name back, names = front ++ name :: back ∧ (∀ n ∈ front, n ∈ bound) ∧
          name ∉ bound ∧ fault = .unboundParameter name) ∧
      ((∀ name ∈ names, name ∈ bound) → ∀ row name,
        (∀ p ∈ q.predicates, p.evaluate q.bindings row ≠ .error (.unboundParameter name)) ∧
          acceptsOnce q.predicates q.bindings row ≠ .error (.unboundParameter name)) := by
  intro names bound
  obtain ⟨st, hst⟩ := exists_render_eq_stopped d q projection
  refine ⟨?_, ?_, ?_⟩
  · have hall : q.unbound? = none ↔ ∀ name ∈ names, name ∈ bound := Query.unbound?_eq_none_iff
    rw [hst]
    cases hunbound : q.unbound? with
    | none =>
        have hbound := hall.mp hunbound
        refine ⟨nofun, ?_⟩
        rintro ⟨name, hname, hnot⟩
        exact absurd (hbound name hname) hnot
    | some name =>
        obtain ⟨front, back, hnames, -, hnot⟩ := Query.unbound?_eq_some_iff.mp hunbound
        have hname : name ∈ names := by simp [names, hnames]
        exact ⟨fun _ => ⟨name, hname, hnot⟩, fun _ => ⟨_, rfl⟩⟩
  · intro fault
    have hfault : render d q projection = .error fault ↔
        ∃ name, q.unbound? = some name ∧ fault = .unboundParameter name := by
      rw [hst]
      cases q.unbound? <;> simp [stopped, eq_comm]
    rw [hfault]
    simp only [Query.unbound?_eq_some_iff]
    constructor
    · rintro ⟨name, ⟨front, back, hnames, hfront, hnot⟩, rfl⟩
      exact ⟨front, name, back, hnames, hfront, hnot, rfl⟩
    · rintro ⟨front, name, back, hnames, hfront, hnot, rfl⟩
      exact ⟨name, ⟨front, back, hnames, hfront, hnot⟩, rfl⟩
  · intro hbound row name
    constructor
    · intro p hp h
      obtain ⟨hname, hnot⟩ := unbound_of_evaluate h
      exact Query.not_contains_bindings.mp hnot (hbound name (List.mem_flatMap_of_mem hp hname))
    · intro h
      obtain ⟨hname, hnot⟩ := unbound_of_acceptsOnce h
      exact Query.not_contains_bindings.mp hnot (hbound name hname)

def overdue : Query where
  entity := "loan"
  predicates := [
    .all [.compare (.field "due") .le (.param "today"),
      .negate (.any [.isNull (.field "fee"), .compare (.field "fee") .lt (.param "least")])],
    .compare (.field "reader") .eq (.param "reader")]
  parameters := [("today", .int 3), ("today", .int 5)]

theorem render_fault_exact_of_overdue :
    overdue.predicates.flatMap Predicate.parameterNames = ["today", "least", "reader"] ∧
      render embedded overdue .count = .error (.unboundParameter "least") := by
  refine ⟨rfl, ?_⟩
  obtain ⟨-, hfault, -⟩ := render_fault_exact embedded overdue .count
  exact (hfault _).mpr ⟨["today"], "least", ["reader"], rfl, by decide, by decide, rfl⟩

end Sql

end RecordQuery
