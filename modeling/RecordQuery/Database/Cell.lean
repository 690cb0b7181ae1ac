import RecordQuery.Number.Reading
import RecordQuery.Number.Significant
import RecordQuery.Store.Error
import RecordQuery.Text.Case

namespace RecordQuery.Database

open RecordQuery.Number RecordQuery.Text

/-- What a table holds in one place. Of a blob, whose bytes are all zero, only the size is kept. -/
inductive Cell where
  | null
  | int (value : Int64)
  | real (value : Binary64)
  | text (value : String)
  | blob (size : Nat)
  deriving DecidableEq, Repr

def untilZero (s : List Char) : List Char := s.takeWhile (· != '\x00')

def clip (s : String) : String := String.ofList (untilZero s.toList)

namespace Cell

instance : Inhabited Cell := ⟨null⟩

def ofValue (v : Value) : Cell :=
  match v with
  | .null => null
  | .bool b => int (Value.flag b)
  | .int n => int n
  | .text s => text s
  | .time t => text t.stored

def value? : Cell → Except CellFault Value
  | null => .ok .null
  | int n => .ok (.int n)
  | text s => .ok (.text (clip s))
  | real a => .error (.real a.display)
  | blob n => .error (.blob n)

def clipped : Value → Value
  | .text s => .text (clip s)
  | v => v

theorem value?_ofValue (v : Value) : (ofValue v).value? = .ok (clipped v.storageForm) := by
  cases v <;> rfl

def rank : Cell → Nat
  | null => 0
  | int _ => 1
  | real _ => 1
  | text _ => 2
  | blob _ => 3

def order : Cell → Cell → Ordering
  | int a, int b => compare a b
  | int a, real b => (Binary64.exactly a.toInt).compare b
  | real a, int b => a.compare (Binary64.exactly b.toInt)
  | real a, real b => a.compare b
  | text a, text b => compare a b
  | blob a, blob b => compare a b
  | a, b => compare a.rank b.rank

def compare? : Cell → Cell → Option Ordering
  | null, _ => none
  | _, null => none
  | a, b => some (order a b)

def isNull : Cell → Bool
  | null => true
  | _ => false

def isText : Cell → Bool
  | text _ => true
  | _ => false

def chars : Cell → List Char
  | null => []
  | int n => writeInt n.toInt
  | real a => a.writeSignificant 15
  | text s => s.toList
  | blob n => List.replicate n '\x00'

def lower : Cell → Cell
  | null => null
  | c => text (String.ofList (lowerAscii c.chars))

def leadingNumber (s : List Char) : Cell :=
  let r := Reading.read s
  if r.hasDigits && (r.fraction.isSome || r.hasExponent) then real r.toBinary64
  else
    match r.wholeOf? with
    | some n => int n
    | none => real r.toBinary64

def succ : Cell → Cell
  | null => null
  | int n => if n = Int64.maxValue then real (.ofInt (n.toInt + 1)) else int (n + 1)
  | real a => real a.succ
  | c =>
      match leadingNumber c.chars with
      | int n => if n = Int64.maxValue then real (.ofInt (n.toInt + 1)) else int (n + 1)
      | real a => real a.succ
      | c => c

end Cell

end RecordQuery.Database
