import RecordQuery.Builder.Script
import RecordQuery.Proofs.Agreement.Operations

namespace RecordQuery

open RecordQuery.Database

variable {l : Layout} {kind : String → Row.Kind} {params : Parameters}

namespace Step

variable (l kind params)

mutual

def Suits : Step → Prop
  | compare field _ value => field ∈ l.names ∧ ∀ v, value = some v → v.Fits (kind field)
  | among field values => field ∈ l.names ∧ ∀ v ∈ values, v.Fits (kind field)
  | notAmong field values => field ∈ l.names ∧ ∀ v ∈ values, v.Fits (kind field)
  | equalParameter field name =>
      field ∈ l.names ∧ ∃ v, (Operand.param name).value? params = .ok v ∧ v.Fits (kind field)
  | compareFields left _ right => left ∈ l.names ∧ right ∈ l.names ∧ kind left = kind right
  | isNull field => field ∈ l.names
  | isNotNull field => field ∈ l.names
  | equalBool field _ => field ∈ l.names ∧ kind field = .boolean
  | notEqualBool field _ => field ∈ l.names ∧ kind field = .boolean
  | betweenInts field range =>
      field ∈ l.names ∧ ∀ r, range = some r → r.Each fun n => (Value.int n).Fits (kind field)
  | betweenSmallInts field range => field ∈ l.names ∧ ∀ r, range = some r →
      r.Each fun n => (Value.int n.toInt64).Fits (kind field)
  | betweenTimes field range =>
      field ∈ l.names ∧ ∀ r, range = some r → r.Each fun t => (Value.time t).Fits (kind field)
  | like .. => False
  | likeText field text => field ∈ l.names ∧ kind field = .text ∧ '\x00' ∉ text.toList
  | add field filter =>
      field ∈ l.names ∧ kind field = .text ∧ ∀ f, filter = some f → f.matching ≠ .custom ∧
        ∀ text, f.value = some text → '\x00' ∉ text.toList
  | group steps => SuitsAll steps
  | orPredicates predicates => ∀ p ∈ predicates, p.Suits l kind params
  | push p => p.Suits l kind params
  | resolve => True

def SuitsAll : List Step → Prop
  | [] => True
  | step :: rest => Suits step ∧ SuitsAll rest

end

end Step

namespace Builder

variable {b : Builder} {step : Step}

theorem ready_apply (hgroup : ∀ steps, step ≠ .group steps) (h : b.Ready l kind params)
    (hstep : step.Suits l kind params) :
    ∃ after, b.apply step = .ok after ∧ after.Ready l kind params := by
  cases step with
  | compare field op value => exact ⟨_, rfl, ready_compare h hstep.1 op hstep.2⟩
  | among field values => exact ⟨_, rfl, ready_among h hstep.1 hstep.2⟩
  | notAmong field values => exact ⟨_, rfl, ready_notAmong h hstep.1 hstep.2⟩
  | equalParameter field name =>
      obtain ⟨hfield, v, hv, hfits⟩ := hstep
      exact ⟨_, rfl, ready_push h ⟨field, v, ⟨rfl, hfield⟩, hv, hfits⟩⟩
  | compareFields left op right =>
      obtain ⟨hleft, hright, hkind⟩ := hstep
      exact ⟨_, rfl, ready_push h ⟨left, right, ⟨rfl, hleft⟩, ⟨rfl, hright⟩, hkind⟩⟩
  | isNull field => exact ⟨_, rfl, ready_push h ⟨field, rfl, hstep⟩⟩
  | isNotNull field => exact ⟨_, rfl, ready_push h ⟨field, rfl, hstep⟩⟩
  | equalBool field value =>
      refine ⟨_, rfl, ready_pushSome h ?_⟩
      intro q hq
      obtain ⟨v, -, rfl⟩ := Option.map_eq_some_iff.mp hq
      exact suits_boolPredicate hstep.1 hstep.2 v
  | notEqualBool field value =>
      refine ⟨_, rfl, ready_pushSome h ?_⟩
      intro q hq
      obtain ⟨v, -, rfl⟩ := Option.map_eq_some_iff.mp hq
      exact suits_boolPredicate hstep.1 hstep.2 v
  | betweenInts field range => exact ⟨_, rfl, ready_between h hstep.1 hstep.2⟩
  | betweenSmallInts field range => exact ⟨_, rfl, ready_between h hstep.1 hstep.2⟩
  | betweenTimes field range => exact ⟨_, rfl, ready_between h hstep.1 hstep.2⟩
  | like field pattern escape => exact hstep.elim
  | likeText field text => exact ready_likeText h hstep.1 hstep.2.1 hstep.2.2
  | add field filter => exact ready_add h hstep.1 hstep.2.1 hstep.2.2
  | group steps => exact absurd rfl (hgroup steps)
  | orPredicates predicates =>
      refine ⟨_, rfl, ?_⟩
      unfold orPredicates
      split
      · exact h
      · exact ready_push h (Predicate.suits_anyOf hstep)
  | push p => exact ⟨_, rfl, ready_push h hstep⟩
  | resolve => exact ⟨_, rfl, ready_resolve h⟩

theorem ready_performAll : ∀ (steps : List Step) (b : Builder), Step.SuitsAll l kind params steps →
    b.Ready l kind params →
      (performAll steps b).1.Ready l kind params ∧ firstFaultIn (performAll steps b).2 = none := by
  refine (perform.mutual_induct
    (fun step b => step.Suits l kind params → b.Ready l kind params →
      (perform step b).1.Ready l kind params ∧ (perform step b).2.firstFault = none)
    (fun steps b => Step.SuitsAll l kind params steps → b.Ready l kind params →
      (performAll steps b).1.Ready l kind params ∧ firstFaultIn (performAll steps b).2 = none)
    ?_ ?_ ?_ ?_ ?_).2
  · intro steps b ih hstep h
    obtain ⟨hinner, hfault⟩ := ih hstep (ready_nested h)
    rw [perform]
    exact ⟨ready_attach h hinner, hfault⟩
  · intro step b hgroup after hafter hstep h
    obtain ⟨after', hafter', hready⟩ := ready_apply hgroup h hstep
    obtain rfl := Except.ok.inj (hafter.symm.trans hafter')
    rw [perform_of_ok hgroup hafter]
    exact ⟨hready, rfl⟩
  · intro step b hgroup fault hfault hstep h
    obtain ⟨after, hafter, -⟩ := ready_apply hgroup h hstep
    cases hfault.symm.trans hafter
  · intro b _ h
    exact ⟨h, rfl⟩
  · intro step rest b first ihstep ihrest hsteps h
    obtain ⟨hready, hfault⟩ := ihstep hsteps.1 h
    obtain ⟨hready', hfault'⟩ := ihrest hsteps.2 hready
    rw [performAll]
    refine ⟨hready', ?_⟩
    rw [firstFaultIn, hfault, hfault']
    rfl

theorem ready_of {locale : Locale} {settings : Settings} (h : of locale settings = .ok b)
    (hescape : Sharp settings.escape) : b.Ready l kind params := by
  unfold of at h
  split at h
  · rename_i hcheck
    obtain rfl := Except.ok.inj h
    refine ⟨hcheck, hescape, ?_⟩
    intro p hp
    cases hp
  · cases h

theorem ready_run (h : b.Ready l kind params) {steps : List Step}
    (hsteps : Step.SuitsAll l kind params steps) :
    ∃ after, b.run steps = .ok after ∧ after.Ready l kind params := by
  obtain ⟨hready, hfault⟩ := ready_performAll steps b hsteps h
  refine ⟨_, ?_, hready⟩
  rw [run, hfault]

end Builder

end RecordQuery
