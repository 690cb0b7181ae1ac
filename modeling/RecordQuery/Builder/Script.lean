import RecordQuery.Builder

namespace RecordQuery

open RecordQuery.Time

inductive Step where
  | compare (field : String) (op : CompareOp) (value : Option Value)
  | among (field : String) (values : List Value)
  | notAmong (field : String) (values : List Value)
  | equalParameter (field name : String)
  | compareFields (left : String) (op : CompareOp) (right : String)
  | isNull (field : String)
  | isNotNull (field : String)
  | equalBool (field : String) (value : Option Bool)
  | notEqualBool (field : String) (value : Option Bool)
  | betweenInts (field : String) (range : Option (Bounds Int64))
  | betweenSmallInts (field : String) (range : Option (Bounds Int32))
  | betweenTimes (field : String) (range : Option (Bounds Instant))
  | like (field pattern : String) (escape : Char)
  | likeText (field text : String)
  | add (field : String) (filter : Option TextFilter)
  | group (steps : List Step)
  | orPredicates (predicates : List Predicate)
  | push (predicate : Predicate)
  | resolve

inductive Report where
  | mk (state : Predicate) (isEmpty : Bool) (fault : Option ArgumentFault)
      (nested : Option (List Report))

namespace Builder

def apply (b : Builder) : Step → Except ArgumentFault Builder
  | .compare field op value => .ok (b.compare field op value)
  | .among field values => .ok (b.among field values)
  | .notAmong field values => .ok (b.notAmong field values)
  | .equalParameter field name => .ok (b.equalParameter field name)
  | .compareFields left op right => .ok (b.compareFields left op right)
  | .isNull field => .ok (b.isNull field)
  | .isNotNull field => .ok (b.isNotNull field)
  | .equalBool field value => .ok (b.equalBool field value)
  | .notEqualBool field value => .ok (b.notEqualBool field value)
  | .betweenInts field range => .ok (b.betweenInts field range)
  | .betweenSmallInts field range => .ok (b.betweenSmallInts field range)
  | .betweenTimes field range => .ok (b.betweenTimes field range)
  | .like field pattern escape => b.like field pattern escape
  | .likeText field text => b.likeText field text
  | .add field filter => b.add field filter
  | .orPredicates predicates => .ok (b.orPredicates predicates)
  | .push predicate => .ok (b.push predicate)
  | .resolve => .ok b.resolve
  | .group _ => .ok b

def report (b : Builder) (fault : Option ArgumentFault) (nested : Option (List Report)) : Report :=
  .mk b.predicate b.isEmpty fault nested

mutual

def perform : Step → Builder → Builder × Report
  | .group steps, b =>
      let inner := performAll steps b.nested
      let after := b.attach inner.1
      (after, after.report none (some inner.2))
  | step, b =>
      match b.apply step with
      | .ok after => (after, after.report none none)
      | .error fault => (b, b.report (some fault) none)

def performAll : List Step → Builder → Builder × List Report
  | [], b => (b, [])
  | step :: rest, b =>
      let first := perform step b
      let others := performAll rest first.1
      (others.1, first.2 :: others.2)

end

variable {b after : Builder} {step : Step} {fault : ArgumentFault}

theorem perform_of_ok (hgroup : ∀ steps, step ≠ .group steps) (h : b.apply step = .ok after) :
    perform step b = (after, after.report none none) := by
  rw [perform, h]
  exact hgroup

theorem perform_of_error (hgroup : ∀ steps, step ≠ .group steps)
    (h : b.apply step = .error fault) : perform step b = (b, b.report (some fault) none) := by
  rw [perform, h]
  exact hgroup

end Builder

mutual

def Report.firstFault : Report → Option ArgumentFault
  | .mk _ _ fault nested =>
      match fault, nested with
      | some fault, _ => some fault
      | none, some reports => firstFaultIn reports
      | none, none => none

def firstFaultIn : List Report → Option ArgumentFault
  | [] => none
  | r :: rest => r.firstFault.or (firstFaultIn rest)

end

def Builder.run (b : Builder) (steps : List Step) : Except ArgumentFault Builder :=
  match firstFaultIn (b.performAll steps).2 with
  | some fault => .error fault
  | none => .ok (b.performAll steps).1

end RecordQuery
