import RecordQuery.Bounds
import RecordQuery.Predicate
import RecordQuery.TextFilter
import RecordQuery.TextPattern

namespace RecordQuery

open RecordQuery.Text RecordQuery.Time

inductive Group where
  | mk (direct : List Predicate) (groups : List Group)
  deriving Repr

namespace Group

def empty : Group := mk [] []

instance : Inhabited Group := ⟨empty⟩

def direct : Group → List Predicate
  | mk direct _ => direct

def groups : Group → List Group
  | mk _ groups => groups

def push (g : Group) (p : Predicate) : Group := mk (g.direct ++ [p]) g.groups

def attach (g nested : Group) : Group := mk g.direct (g.groups ++ [nested])

mutual

def resolved : Group → List Predicate
  | mk direct groups => direct ++ resolvedAll groups

def resolvedAll : List Group → List Predicate
  | [] => []
  | g :: rest =>
      if g.resolved.isEmpty then resolvedAll rest
      else Predicate.anyOf g.resolved :: resolvedAll rest

end

mutual

def isEmpty : Group → Bool
  | mk direct groups => direct.isEmpty && isEmptyAll groups

def isEmptyAll : List Group → Bool
  | [] => true
  | g :: rest => g.isEmpty && isEmptyAll rest

end

end Group

def chunksIn {α : Type} (size : Nat) : Nat → List α → List (List α)
  | 0, _ => []
  | _ + 1, [] => []
  | n + 1, l => l.take size :: chunksIn size n (l.drop size)

def chunks {α : Type} (size : Nat) (l : List α) : List (List α) := chunksIn size l.length l

structure Builder where
  locale : Locale
  settings : Settings
  root : Group := .empty

namespace Builder

def of (locale : Locale) (settings : Settings) : Except ArgumentFault Builder :=
  match settings.check with
  | .ok () => .ok ⟨locale, settings, .empty⟩
  | .error fault => .error fault

def predicates (b : Builder) : List Predicate := b.root.resolved

def predicate (b : Builder) : Predicate := .allOf b.predicates

def isEmpty (b : Builder) : Bool := b.root.isEmpty

def resolve (b : Builder) : Builder := { b with root := .mk b.predicates [] }

def push (b : Builder) (p : Predicate) : Builder := { b with root := b.root.push p }

def nested (b : Builder) : Builder := { b with root := .empty }

def attach (b group : Builder) : Builder := { b with root := b.root.attach group.root }

def attachDirect (b : Builder) (predicates : List Predicate) : Builder :=
  { b with root := b.root.attach (.mk predicates []) }

def pushSome (b : Builder) : Option Predicate → Builder
  | none => b
  | some p => b.push p

def compare (b : Builder) (field : String) (op : CompareOp) (value : Option Value) : Builder :=
  b.pushSome (value.map fun v => .compare (.field field) op (.value v))

def equalParameter (b : Builder) (field name : String) : Builder :=
  b.push (.compare (.field field) .eq (.param name))

def compareFields (b : Builder) (left : String) (op : CompareOp) (right : String) : Builder :=
  b.push (.compareFields (.field left) op (.field right))

def isNull (b : Builder) (field : String) : Builder := b.push (.isNull (.field field))

def isNotNull (b : Builder) (field : String) : Builder := b.push (.isNotNull (.field field))

def boolPredicate (field : String) : Bool → Predicate
  | true => .equal (.field field) (.bool true)
  | false => .anyOf [.isNull (.field field), .equal (.field field) (.bool false)]

def equalBool (b : Builder) (field : String) (value : Option Bool) : Builder :=
  b.pushSome (value.map (boolPredicate field))

def notEqualBool (b : Builder) (field : String) (value : Option Bool) : Builder :=
  b.pushSome (value.map fun v => .negate (boolPredicate field v))

def between {α : Type} [Ord α] [DecidableEq α] (toValue : α → Value) (b : Builder) (field : String)
    (range : Option (Bounds α)) : Builder :=
  match range with
  | none => b
  | some r =>
      if r.isSingle then b.compare field .eq (r.lower.map toValue)
      else (b.compare field .ge (r.lower.map toValue)).compare field .le (r.upper.map toValue)

def betweenInts : Builder → String → Option (Bounds Int64) → Builder := between Value.int

def betweenSmallInts : Builder → String → Option (Bounds Int32) → Builder :=
  between fun n => .int n.toInt64

def betweenTimes : Builder → String → Option (Bounds Instant) → Builder := between Value.time

def listPredicate (expr : Expr) : List Value → Predicate
  | [v] => .equal expr v
  | values => .among expr values

def notListPredicate (expr : Expr) : List Value → Predicate
  | [v] => .compare expr .ne (.value v)
  | values => .negate (.among expr values)

def among (b : Builder) (field : String) (values : List Value) : Builder :=
  if values.isEmpty then b
  else if values.length ≤ max 1 b.settings.listLimit then
    b.push (listPredicate (.field field) values)
  else
    b.attachDirect ((chunks b.settings.listLimit values).map (listPredicate (.field field)))

def notAmong (b : Builder) (field : String) (values : List Value) : Builder :=
  if values.isEmpty then b
  else if values.length ≤ max 1 b.settings.listLimit then
    b.push (notListPredicate (.field field) values)
  else
    b.push (.allOf ((chunks b.settings.listLimit values).map (notListPredicate (.field field))))

def like (b : Builder) (field pattern : String) (escape : Char) : Except ArgumentFault Builder :=
  match Settings.checkEscape escape with
  | .error fault => .error fault
  | .ok () =>
      .ok (if allBlank pattern.toList then b
        else b.push (.like (.lower (.field field)) (b.locale.lower pattern) (some escape)))

def likeMade (b : Builder) (field : String)
    (make : Locale → Char → String → Except ArgumentFault String) (text : String) :
    Except ArgumentFault Builder :=
  match make b.locale b.settings.escape text with
  | .error fault => .error fault
  | .ok pattern => b.like field pattern b.settings.escape

def likeText (b : Builder) (field text : String) : Except ArgumentFault Builder :=
  if allBlank text.toList then .ok b else b.likeMade field TextPattern.contains text

def match? (b : Builder) (field text : String) : Matching → Except ArgumentFault Builder
  | .exact => .ok (b.compare field .eq (some (.text text)))
  | .startsWith => b.likeMade field TextPattern.startsWith text
  | .endsWith => b.likeMade field TextPattern.endsWith text
  | .like => b.likeText field text
  | .custom => b.like field text b.settings.escape

def add (b : Builder) (field : String) : Option TextFilter → Except ArgumentFault Builder
  | some ⟨some text, matching⟩ =>
      if allBlank text.toList then .ok b else b.match? field text matching
  | _ => .ok b

def orPredicates (b : Builder) (predicates : List Predicate) : Builder :=
  if predicates.isEmpty then b else b.push (.anyOf predicates)

end Builder

end RecordQuery
