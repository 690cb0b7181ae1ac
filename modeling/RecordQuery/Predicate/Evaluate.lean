import RecordQuery.Predicate
import RecordQuery.Predicate.Like
import RecordQuery.Predicate.Truth
import RecordQuery.Text.Case

namespace RecordQuery

open RecordQuery.Text

abbrev Parameters := Keyed String Value

inductive QueryFault where
  | unboundParameter (name : String)
  | danglingEscape (pattern : String)
  deriving DecidableEq, Repr

def Expr.value (row : Row) : Expr → Value
  | field name => row.value name
  | lower inner =>
      match inner.value row with
      | .text s => .text (String.ofList (Text.lower s.toList))
      | v => v

def Operand.value? (params : Parameters) : Operand → Except QueryFault Value
  | value v => .ok v
  | param name =>
      match params.get? name with
      | some v => .ok v
      | none => .error (.unboundParameter name)

def CompareOp.test (op : CompareOp) (left right : Value) : Truth :=
  .ofOrdering op.holds (left.compare? right)

def Value.likeText : Value → Option (List Char)
  | null => none
  | text s => some s.toList
  | v => some v.write

abbrev PatternKey := String × Option Char

abbrev PatternTable := List (PatternKey × List LikeToken)

namespace PatternTable

def tokens? (key : PatternKey) : Except QueryFault (List LikeToken) :=
  match Like.tokens? key.2 key.1.toList with
  | some ts => .ok ts
  | none => .error (.danglingEscape key.1)

def add (table : PatternTable) (key : PatternKey) : Except QueryFault PatternTable :=
  match table.lookup key with
  | some _ => .ok table
  | none =>
      match tokens? key with
      | .ok ts => .ok (table ++ [(key, ts)])
      | .error e => .error e

def find (table : PatternTable) (key : PatternKey) : Except QueryFault (List LikeToken) :=
  match table.lookup key with
  | some ts => .ok ts
  | none => tokens? key

mutual

def collect (table : PatternTable) : Predicate → Except QueryFault PatternTable
  | .like _ pattern escape => table.add (pattern, escape)
  | .negate inner => collect table inner
  | .all items => collectAll table items
  | .any items => collectAll table items
  | _ => .ok table

def collectAll (table : PatternTable) : List Predicate → Except QueryFault PatternTable
  | [] => .ok table
  | p :: rest =>
      match collect table p with
      | .ok table => collectAll table rest
      | .error e => .error e

end

end PatternTable

namespace Predicate

variable (patterns : PatternTable) (params : Parameters) (row : Row)

def likeTruth (expr : Expr) (key : PatternKey) : Except QueryFault Truth :=
  match (expr.value row).likeText with
  | none => .ok .unknown
  | some s =>
      match patterns.find key with
      | .ok ts => .ok (.ofBool (Like.fits Like.exact ts s))
      | .error e => .error e

mutual

def evaluateWith : Predicate → Except QueryFault Truth
  | literal b => .ok (.ofBool b)
  | compare expr op operand =>
      match operand.value? params with
      | .ok right => .ok (op.test (expr.value row) right)
      | .error e => .error e
  | compareFields left op right => .ok (op.test (left.value row) (right.value row))
  | among expr values => .ok (.among Value.isNull Value.compare? (expr.value row) values)
  | isNull expr => .ok (.ofBool (expr.value row).isNull)
  | isNotNull expr => .ok (.ofBool !(expr.value row).isNull)
  | like expr pattern escape => likeTruth patterns row expr (pattern, escape)
  | negate inner =>
      match evaluateWith inner with
      | .ok t => .ok t.negate
      | .error e => .error e
  | all items => evaluateAll items
  | any items => evaluateAny items

def evaluateAll : List Predicate → Except QueryFault Truth
  | [] => .ok .yes
  | p :: rest =>
      match evaluateWith p with
      | .error e => .error e
      | .ok .no => .ok .no
      | .ok t =>
          match evaluateAll rest with
          | .ok u => .ok (t.both u)
          | .error e => .error e

def evaluateAny : List Predicate → Except QueryFault Truth
  | [] => .ok .no
  | p :: rest =>
      match evaluateWith p with
      | .error e => .error e
      | .ok .yes => .ok .yes
      | .ok t =>
          match evaluateAny rest with
          | .ok u => .ok (t.either u)
          | .error e => .error e

end

def evaluate (p : Predicate) (params : Parameters) (row : Row) : Except QueryFault Truth :=
  match PatternTable.collect [] p with
  | .ok patterns => evaluateWith patterns params row p
  | .error e => .error e

end Predicate

structure Matcher where
  predicates : List Predicate
  params : Parameters
  patterns : PatternTable

namespace Matcher

def of (predicates : List Predicate) (params : Parameters) : Except QueryFault Matcher :=
  match PatternTable.collectAll [] predicates with
  | .ok patterns => .ok ⟨predicates, params, patterns⟩
  | .error e => .error e

def acceptsAll (patterns : PatternTable) (params : Parameters) (row : Row) :
    List Predicate → Except QueryFault Bool
  | [] => .ok true
  | p :: rest =>
      match p.evaluateWith patterns params row with
      | .ok .yes => acceptsAll patterns params row rest
      | .ok _ => .ok false
      | .error e => .error e

def accepts (m : Matcher) (row : Row) : Except QueryFault Bool :=
  acceptsAll m.patterns m.params row m.predicates

end Matcher

def acceptsOnce (predicates : List Predicate) (params : Parameters) (row : Row) :
    Except QueryFault Bool :=
  match Matcher.of predicates params with
  | .ok m => m.accepts row
  | .error e => .error e

end RecordQuery
