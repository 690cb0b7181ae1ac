import RecordQuery.Proofs.Builder.Groups
import RecordQuery.Proofs.Predicate.Patterns
import RecordQuery.Sql.Statement
import RecordQuery.Store.Memory

namespace RecordQuery

namespace PatternTable

theorem exists_add (table : PatternTable) {key : PatternKey}
    (h : (Like.tokens? key.2 key.1.toList).isSome = true) : ∃ after, table.add key = .ok after := by
  obtain ⟨ts, hts⟩ := Option.isSome_iff_exists.mp h
  cases hlookup : table.lookup key with
  | some us => exact ⟨table, by simp only [add, hlookup]⟩
  | none => exact ⟨table ++ [(key, ts)], by simp only [add, hlookup, tokens?, hts]⟩

mutual

theorem exists_collect (table : PatternTable) : ∀ p : Predicate,
    (∀ expr pattern escape, .like expr pattern escape ∈ p.leaves →
      (Like.tokens? escape pattern.toList).isSome = true) → ∃ after, collect table p = .ok after
  | .literal _, _ => ⟨table, rfl⟩
  | .compare .., _ => ⟨table, rfl⟩
  | .compareFields .., _ => ⟨table, rfl⟩
  | .among .., _ => ⟨table, rfl⟩
  | .isNull _, _ => ⟨table, rfl⟩
  | .isNotNull _, _ => ⟨table, rfl⟩
  | .like _ _ _, h => exists_add table (h _ _ _ (List.mem_singleton_self _))
  | .negate inner, h => exists_collect table inner h
  | .all items, h => exists_collectAll table items h
  | .any items, h => exists_collectAll table items h

theorem exists_collectAll (table : PatternTable) : ∀ items : List Predicate,
    (∀ expr pattern escape, .like expr pattern escape ∈ Predicate.leavesAll items →
      (Like.tokens? escape pattern.toList).isSome = true) →
      ∃ after, collectAll table items = .ok after
  | [], _ => ⟨table, rfl⟩
  | p :: rest, h => by
      obtain ⟨first, hfirst⟩ := exists_collect table p fun _ _ _ hmem =>
        h _ _ _ (List.mem_append_left _ hmem)
      obtain ⟨after, hafter⟩ := exists_collectAll first rest fun _ _ _ hmem =>
        h _ _ _ (List.mem_append_right _ hmem)
      exact ⟨after, by simp only [collectAll, hfirst, hafter]⟩

end

end PatternTable

def stopped {α : Type} (name? : Option String) (a : α) : Except QueryFault α :=
  match name? with
  | some name => .error (.unboundParameter name)
  | none => .ok a

theorem stopped_map {α β : Type} (name? : Option String) (a : α) (f : α → β) :
    (stopped name? a).map f = stopped name? (f a) := by
  cases name? <;> rfl

def unboundIn (params : Parameters) (names : List String) : Option String :=
  names.find? fun name => !params.contains name

namespace Operand

def parameterNames : Operand → List String
  | value _ => []
  | param name => [name]

theorem exists_value?_eq_stopped (params : Parameters) (operand : Operand) :
    ∃ v, operand.value? params = stopped (unboundIn params operand.parameterNames) v := by
  cases operand with
  | value v => exact ⟨v, rfl⟩
  | param name =>
      cases hget : params.get? name with
      | none => exact ⟨.null, by simp [value?, hget, unboundIn, parameterNames, Keyed.contains,
          stopped]⟩
      | some v => exact ⟨v, by simp [value?, hget, unboundIn, parameterNames, Keyed.contains,
          stopped]⟩

end Operand

namespace Predicate

variable (params : Parameters)

section

variable (row : Row)

mutual

/-- The name that is not bound and that evaluation on a row comes to. -/
def stop : Predicate → Option String
  | compare _ _ operand => unboundIn params operand.parameterNames
  | negate inner => stop inner
  | all items => stopAmong (· != .no) items
  | any items => stopAmong (· != .yes) items
  | _ => none

def stopAmong (goesOn : Truth → Bool) : List Predicate → Option String
  | [] => none
  | p :: rest =>
      (stop p).or (if goesOn (p.meaning params row) then stopAmong goesOn rest else none)

end

end

variable {params} {patterns : PatternTable} (row : Row)

mutual

theorem evaluateWith_eq_stopped (h : patterns.Faithful) : ∀ p : Predicate,
    (∀ expr pattern escape, like expr pattern escape ∈ p.leaves →
      (Like.tokens? escape pattern.toList).isSome = true) →
      p.evaluateWith patterns params row = stopped (p.stop params row) (p.meaning params row)
  | literal _, _ => rfl
  | compare expr op operand, _ => by
      obtain ⟨v, hv⟩ := operand.exists_value?_eq_stopped params
      rw [evaluateWith, meaning, stop, hv]
      cases unboundIn params operand.parameterNames <;> rfl
  | compareFields .., _ => rfl
  | among .., _ => rfl
  | isNull _, _ => rfl
  | isNotNull _, _ => rfl
  | like expr pattern escape, hpatterns => by
      have hclosed : (like expr pattern escape).Closed params :=
        Option.isSome_iff_exists.mp (hpatterns _ _ _ (List.mem_singleton_self _))
      exact likeTruth_eq row h expr hclosed
  | negate inner, hpatterns => by
      rw [evaluateWith, meaning, stop, evaluateWith_eq_stopped h inner hpatterns]
      cases inner.stop params row <;> rfl
  | all items, hpatterns => evaluateAll_eq_stopped h items hpatterns
  | any items, hpatterns => evaluateAny_eq_stopped h items hpatterns

theorem evaluateAll_eq_stopped (h : patterns.Faithful) : ∀ items : List Predicate,
    (∀ expr pattern escape, like expr pattern escape ∈ leavesAll items →
      (Like.tokens? escape pattern.toList).isSome = true) →
      evaluateAll patterns params row items =
        stopped (stopAmong params row (· != .no) items) (meaningAll params row items)
  | [], _ => rfl
  | p :: rest, hpatterns => by
      have hp := evaluateWith_eq_stopped h p fun _ _ _ hmem =>
        hpatterns _ _ _ (List.mem_append_left _ hmem)
      have hrest := evaluateAll_eq_stopped h rest fun _ _ _ hmem =>
        hpatterns _ _ _ (List.mem_append_right _ hmem)
      rw [evaluateAll, stopAmong, meaningAll, hp, hrest]
      cases p.stop params row with
      | some name => rfl
      | none =>
          cases p.meaning params row with
          | no => rfl
          | unknown => cases stopAmong params row (· != .no) rest <;> rfl
          | yes => cases stopAmong params row (· != .no) rest <;> rfl

theorem evaluateAny_eq_stopped (h : patterns.Faithful) : ∀ items : List Predicate,
    (∀ expr pattern escape, like expr pattern escape ∈ leavesAll items →
      (Like.tokens? escape pattern.toList).isSome = true) →
      evaluateAny patterns params row items =
        stopped (stopAmong params row (· != .yes) items) (meaningAny params row items)
  | [], _ => rfl
  | p :: rest, hpatterns => by
      have hp := evaluateWith_eq_stopped h p fun _ _ _ hmem =>
        hpatterns _ _ _ (List.mem_append_left _ hmem)
      have hrest := evaluateAny_eq_stopped h rest fun _ _ _ hmem =>
        hpatterns _ _ _ (List.mem_append_right _ hmem)
      rw [evaluateAny, stopAmong, meaningAny, hp, hrest]
      cases p.stop params row with
      | some name => rfl
      | none =>
          cases p.meaning params row with
          | yes => rfl
          | unknown => cases stopAmong params row (· != .yes) rest <;> rfl
          | no => cases stopAmong params row (· != .yes) rest <;> rfl

end

variable {row} {name : String}

theorem unbound_of_unboundIn {names : List String} (h : unboundIn params names = some name) :
    name ∈ names ∧ params.contains name = false :=
  ⟨List.mem_of_find?_eq_some h, by simpa using List.find?_some h⟩

mutual

theorem unbound_of_stop : ∀ p : Predicate, p.stop params row = some name →
    name ∈ p.parameterNames ∧ params.contains name = false
  | compare _ _ (.param _), h => unbound_of_unboundIn h
  | negate inner, h => unbound_of_stop inner h
  | all items, h => unbound_of_stopAmong items h
  | any items, h => unbound_of_stopAmong items h

theorem unbound_of_stopAmong {goesOn : Truth → Bool} : ∀ items : List Predicate,
    stopAmong params row goesOn items = some name →
      name ∈ parameterNamesAll items ∧ params.contains name = false
  | p :: rest, h => by
      rw [stopAmong] at h
      rcases Option.or_eq_some_iff.mp h with hp | ⟨-, hrest⟩
      · obtain ⟨hmem, hunbound⟩ := unbound_of_stop p hp
        exact ⟨List.mem_append_left _ hmem, hunbound⟩
      · split at hrest
        · obtain ⟨hmem, hunbound⟩ := unbound_of_stopAmong rest hrest
          exact ⟨List.mem_append_right _ hmem, hunbound⟩
        · cases hrest

end

end Predicate

namespace Matcher

variable {params : Parameters} {patterns : PatternTable} (row : Row)

theorem acceptsAll_eq_stopped (h : patterns.Faithful) : ∀ {items : List Predicate},
    (∀ expr pattern escape, .like expr pattern escape ∈ Predicate.leavesAll items →
      (Like.tokens? escape pattern.toList).isSome = true) →
      acceptsAll patterns params row items =
        stopped (Predicate.stopAmong params row (· == .yes) items)
          (Predicate.meaningAll params row items == .yes)
  | [], _ => rfl
  | p :: rest, hpatterns => by
      have hp : p.evaluateWith patterns params row =
          stopped (p.stop params row) (p.meaning params row) :=
        Predicate.evaluateWith_eq_stopped row h p fun _ _ _ hmem =>
          hpatterns _ _ _ (List.mem_append_left _ hmem)
      have hrest := acceptsAll_eq_stopped h fun _ _ _ hmem =>
        hpatterns _ _ _ (List.mem_append_right _ hmem)
      rw [acceptsAll, Predicate.stopAmong, Predicate.meaningAll, hp]
      cases p.stop params row with
      | some name => rfl
      | none =>
          cases p.meaning params row with
          | yes =>
              refine hrest.trans ?_
              cases Predicate.stopAmong params row (· == .yes) rest <;>
                cases Predicate.meaningAll params row rest <;> rfl
          | unknown => cases Predicate.meaningAll params row rest <;> rfl
          | no => cases Predicate.meaningAll params row rest <;> rfl

end Matcher

namespace Query

def unbound? (q : Query) : Option String :=
  unboundIn q.bindings (Predicate.parameterNamesAll q.predicates)

/-- The first name that is not bound and that is come to when rows are held against a query. -/
def stop (q : Query) (rows : List Row) : Option String :=
  rows.findSome? fun row => Predicate.stopAmong q.bindings row (· == .yes) q.predicates

theorem unbound_of_stop {q : Query} {rows : List Row} {name : String}
    (h : q.stop rows = some name) :
    name ∈ Predicate.parameterNamesAll q.predicates ∧ q.bindings.contains name = false := by
  obtain ⟨row, -, hrow⟩ := List.exists_of_findSome?_eq_some h
  exact Predicate.unbound_of_stopAmong _ hrow

theorem isSome_unbound? (q : Query) : q.unbound?.isSome = true ↔
    ∃ name ∈ Predicate.parameterNamesAll q.predicates, q.bindings.contains name = false := by
  simp [unbound?, unboundIn]

end Query

namespace Sql

namespace Condition

variable (params : Parameters)

theorem unboundIn_append (names names' : List String) :
    unboundIn params (names ++ names') =
      (unboundIn params names).or (unboundIn params names') :=
  List.find?_append

mutual

theorem exists_ofPredicate_eq_stopped : ∀ p : Predicate,
    ∃ c, ofPredicate params p = stopped (unboundIn params p.parameterNames) c
  | .literal b => ⟨_, rfl⟩
  | .compare e op operand => by
      obtain ⟨v, hv⟩ := operand.exists_value?_eq_stopped params
      have hnames : (Predicate.compare e op operand).parameterNames = operand.parameterNames := by
        cases operand <;> rfl
      exact ⟨_, by rw [ofPredicate, hv, stopped_map, hnames]⟩
  | .compareFields left op right => ⟨_, rfl⟩
  | .among e values => ⟨_, rfl⟩
  | .isNull e => ⟨_, rfl⟩
  | .isNotNull e => ⟨_, rfl⟩
  | .like e pattern escape => ⟨_, rfl⟩
  | .negate inner => by
      obtain ⟨c, hc⟩ := exists_ofPredicate_eq_stopped inner
      exact ⟨_, by rw [ofPredicate, hc, stopped_map, Predicate.parameterNames]⟩
  | .all items => by
      obtain ⟨cs, hcs⟩ := exists_ofPredicates_eq_stopped items
      exact ⟨_, by rw [ofPredicate, hcs, stopped_map, Predicate.parameterNames]⟩
  | .any items => by
      obtain ⟨cs, hcs⟩ := exists_ofPredicates_eq_stopped items
      exact ⟨_, by rw [ofPredicate, hcs, stopped_map, Predicate.parameterNames]⟩

theorem exists_ofPredicates_eq_stopped : ∀ ps : List Predicate,
    ∃ cs, ofPredicates params ps = stopped (unboundIn params (Predicate.parameterNamesAll ps)) cs
  | [] => ⟨_, rfl⟩
  | p :: rest => by
      obtain ⟨c, hc⟩ := exists_ofPredicate_eq_stopped p
      obtain ⟨cs, hcs⟩ := exists_ofPredicates_eq_stopped rest
      refine ⟨c :: cs, ?_⟩
      rw [ofPredicates, Predicate.parameterNamesAll, unboundIn_append, hc, hcs]
      cases unboundIn params p.parameterNames with
      | some name => rfl
      | none => exact stopped_map _ cs _

end

end Condition

theorem exists_render_eq_stopped (d : Dialect) (q : Query) (projection : Projection) :
    ∃ st, render d q projection = stopped q.unbound? st := by
  obtain ⟨conditions, h⟩ := Condition.exists_ofPredicates_eq_stopped q.bindings q.predicates
  exact ⟨_, by rw [render, Select.ofQuery, h, stopped_map, stopped_map, Query.unbound?]⟩

end Sql

namespace Memory

theorem accepted_eq_stopped {m : Matcher} {stop : Row → Option String} {p : Row → Bool}
    {rows : List Row} (h : ∀ row, m.accepts row = stopped (stop row) (p row)) :
    accepted m rows = stopped (rows.findSome? stop) (rows.filter p) := by
  induction rows with
  | nil => rfl
  | cons row rest ih =>
      rw [accepted, h, ih, List.findSome?_cons, List.filter_cons]
      cases stop row with
      | some name => rfl
      | none => cases rest.findSome? stop <;> rfl

section

variable {q : Query} (hpatterns : ∀ expr pattern escape,
  .like expr pattern escape ∈ Predicate.leavesAll q.predicates →
    (Like.tokens? escape pattern.toList).isSome = true) (m : Memory)

include hpatterns

theorem select_eq_stopped : ∃ found : List Row, select q m =
    (stopped (q.stop (m.tables.region q.entity).values) found).mapError .ofQuery := by
  obtain ⟨patterns, hcollect⟩ := PatternTable.exists_collectAll [] q.predicates hpatterns
  have hfaithful := PatternTable.faithful_of_collectAll PatternTable.faithful_nil _ hcollect
  have haccepts : ∀ row, (Matcher.mk q.predicates q.bindings patterns).accepts row =
      stopped (Predicate.stopAmong q.bindings row (· == .yes) q.predicates)
        (Predicate.meaningAll q.bindings row q.predicates == .yes) :=
    fun row => Matcher.acceptsAll_eq_stopped row hfaithful hpatterns
  refine ⟨distinctIf q.distinct (sorted q.orders ((m.tables.region q.entity).values.filter
    fun row => Predicate.meaningAll q.bindings row q.predicates == .yes)), ?_⟩
  rw [select, Matcher.of, hcollect]
  simp only
  rw [accepted_eq_stopped haccepts, Query.stop]
  cases (m.tables.region q.entity).values.findSome? fun row =>
    Predicate.stopAmong q.bindings row (· == .yes) q.predicates <;> rfl

theorem select_map_unbound {α : Type} (f : List Row → α) (name : String) :
    (select q m).map f = .error (.unboundParameter name) ↔
      q.stop (m.tables.region q.entity).values = some name := by
  obtain ⟨found, hselect⟩ := select_eq_stopped hpatterns m
  rw [hselect]
  cases q.stop (m.tables.region q.entity).values with
  | none => simp [stopped, Except.mapError, Except.map]
  | some other => simp [stopped, Except.mapError, Except.map, StoreError.ofQuery]

end

end Memory

def Unbound {α : Type} (answer : Except StoreError α) : Prop :=
  ∃ name, answer = .error (.unboundParameter name)

theorem unbound_iff_isSome {α : Type} {answer : Except StoreError α} {name? : Option String}
    (h : ∀ name, answer = .error (.unboundParameter name) ↔ name? = some name) :
    Unbound answer ↔ name?.isSome = true := by
  rw [Option.isSome_iff_exists]
  exact exists_congr h

open RecordQuery.Sql

theorem unwritten_iff (d : Dialect) (q : Query) (projection : Projection) :
    (∃ name, render d q projection = .error (.unboundParameter name)) ↔
      q.unbound?.isSome = true := by
  obtain ⟨st, hst⟩ := exists_render_eq_stopped d q projection
  rw [hst]
  cases q.unbound? with
  | none => simp [stopped]
  | some name => simp [stopped]

theorem unbound_alike_iff {q : Query}
    (hpatterns : ∀ expr pattern escape,
      .like expr pattern escape ∈ Predicate.leavesAll q.predicates →
        (Like.tokens? escape pattern.toList).isSome = true)
    (m : Memory) (d : Dialect) (projection : Projection) (column : String) :
    let rows := (m.tables.region q.entity).values
    let unwritten := ∃ name, render d q projection = .error (.unboundParameter name)
    (unwritten ↔
      ∃ name ∈ Predicate.parameterNamesAll q.predicates, q.bindings.contains name = false) ∧
    (∀ name, (m.rows q = .error (.unboundParameter name) ↔ q.stop rows = some name) ∧
      (m.column q column = .error (.unboundParameter name) ↔ q.stop rows = some name) ∧
      (m.count q = .error (.unboundParameter name) ↔ q.stop rows = some name)) ∧
    ((q.stop rows).isSome = true → unwritten) ∧
    ((Unbound (m.rows q) ↔ unwritten) ∧ (Unbound (m.column q column) ↔ unwritten) ∧
        (Unbound (m.count q) ↔ unwritten) ↔
      (unwritten → (q.stop rows).isSome = true)) := by
  intro rows unwritten
  have hunwritten : unwritten ↔ q.unbound?.isSome = true := unwritten_iff d q projection
  have hrows : ∀ name, m.rows q = .error (.unboundParameter name) ↔ q.stop rows = some name :=
    Memory.select_map_unbound hpatterns m _
  have hcolumn : ∀ name,
      m.column q column = .error (.unboundParameter name) ↔ q.stop rows = some name :=
    Memory.select_map_unbound hpatterns m _
  have hcount : ∀ name, m.count q = .error (.unboundParameter name) ↔ q.stop rows = some name :=
    Memory.select_map_unbound hpatterns m _
  have hreached : (q.stop rows).isSome = true → unwritten := by
    intro h
    obtain ⟨name, hname⟩ := Option.isSome_iff_exists.mp h
    rw [hunwritten, Query.isSome_unbound?]
    exact ⟨name, Query.unbound_of_stop hname⟩
  have halike : ∀ {answer : Prop}, (answer ↔ (q.stop rows).isSome = true) →
      ((answer ↔ unwritten) ↔ (unwritten → (q.stop rows).isSome = true)) := by
    intro answer h
    rw [h]
    exact ⟨fun hiff => hiff.mpr, fun himp => ⟨hreached, himp⟩⟩
  refine ⟨hunwritten.trans q.isSome_unbound?, fun name => ⟨hrows name, hcolumn name, hcount name⟩,
    hreached, ?_⟩
  rw [halike (unbound_iff_isSome hrows), halike (unbound_iff_isSome hcolumn),
    halike (unbound_iff_isSome hcount), and_self, and_self]

section

def seeking : Query where
  entity := "person"
  predicates := [
    .compare (.field "age") .ge (.value (.int 18)),
    .any [.all [.literal false, .compare (.field "name") .eq (.param "first")],
      .negate (.compare (.field "name") .eq (.param "second")),
      .like (.lower (.field "name")) "a%" none]]

def people : Memory :=
  (Memory.insert "person" (.ofList [("name", .text "Ann"), ("age", .int 40)])
    (Memory.insert "person" (.ofList [("name", .text "Bob"), ("age", .int 9)]) {}).2).2

theorem unbound_alike_seeking :
    people.rows seeking = .error (.unboundParameter "second") ∧
      render embedded seeking .rows = .error (.unboundParameter "first") ∧
      (Unbound (people.count seeking) ↔
        ∃ name, render embedded seeking .rows = .error (.unboundParameter name)) := by
  have hlikes : ∀ expr pattern escape,
      .like expr pattern escape ∈ Predicate.leavesAll seeking.predicates →
        (Like.tokens? escape pattern.toList).isSome = true := by
    intro expr pattern escape hmem
    obtain ⟨rfl, rfl, rfl⟩ : expr = .lower (.field "name") ∧ pattern = "a%" ∧ escape = none := by
      simpa [seeking, Predicate.leavesAll, Predicate.leaves] using hmem
    decide +kernel
  obtain ⟨-, hnames, -, halike⟩ := unbound_alike_iff hlikes people embedded .rows "name"
  have hstop : seeking.stop (people.tables.region seeking.entity).values = some "second" := by
    decide +kernel
  have hall := halike.mpr fun _ => by rw [hstop]; rfl
  exact ⟨(hnames "second").1.mpr hstop, rfl, hall.2.2⟩

def ofAge : Query :=
  { entity := "person", predicates := [.compare (.field "age") .ge (.param "least")] }

theorem not_unbound_alike_without_rows :
    Memory.rows ofAge {} = .ok [] ∧ Memory.column ofAge "name" {} = .ok [] ∧
      Memory.count ofAge {} = .ok 0 ∧
      render embedded ofAge .rows = .error (.unboundParameter "least") :=
  ⟨rfl, rfl, rfl, rfl⟩

end

end RecordQuery
