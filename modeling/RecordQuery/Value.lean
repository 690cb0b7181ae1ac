import RecordQuery.Time.Reader
import RecordQuery.Time.Writer

namespace RecordQuery

open RecordQuery.Text RecordQuery.Time

inductive Value where
  | null
  | bool (value : Bool)
  | int (value : Int64)
  | text (value : String)
  | time (value : Instant)
  deriving DecidableEq, Repr

namespace Value

instance : Inhabited Value := ⟨null⟩

def isNull : Value → Bool
  | null => true
  | _ => false

def flag (b : Bool) : Int64 := if b then 1 else 0

def asBool : Value → Option Bool
  | bool b => some b
  | int i => some (i != 0)
  | _ => none

def asInt : Value → Option Int64
  | int i => some i
  | bool b => some (flag b)
  | _ => none

def asText : Value → Option String
  | text s => some s
  | _ => none

def asTime : Value → Option Instant
  | time t => some t
  | text s => Instant.read? s
  | _ => none

def compareTimes (a b : Value) : Option Ordering := do
  let s ← a.asTime
  let t ← b.asTime
  return compare s t

def compare? : Value → Value → Option Ordering
  | int a, int b => some (compare a b)
  | bool a, bool b => some (compare (flag a) (flag b))
  | bool a, int b => some (compare (flag a) b)
  | int a, bool b => some (compare a (flag b))
  | text a, text b => some (compare a b)
  | time a, time b => some (compare a b)
  | time a, text b => compareTimes (time a) (text b)
  | text a, time b => compareTimes (text a) (time b)
  | _, _ => none

def rank : Value → Nat
  | null => 0
  | bool _ => 1
  | int _ => 2
  | text _ => 3
  | time _ => 4

def sortCompare (a b : Value) : Ordering :=
  (a.compare? b).getD (compare a.rank b.rank)

def write : Value → List Char
  | null => "NULL".toList
  | bool b => (if b then "true" else "false").toList
  | int i => writeInt i.toInt
  | text s => '\'' :: s.toList ++ ['\'']
  | time t => '\'' :: t.write Instant.microFraction ++ ['\'']

def display (v : Value) : String := String.ofList v.write

def ofOption (f : α → Value) : Option α → Value
  | none => null
  | some a => f a

def storageForm : Value → Value
  | bool b => int (flag b)
  | time t => text t.stored
  | v => v

end Value

end RecordQuery
