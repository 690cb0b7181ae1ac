import RecordQuery.Bounds
import RecordQuery.Text.Blank
import RecordQuery.Time.Writer

namespace RecordQuery

open RecordQuery.Text RecordQuery.Time

class BoundText (α : Type) where
  write : α → List Char
  read : List Char → Except BoundFault α

def readBoundInt (lo hi : Int) (s : List Char) : Except BoundFault Int :=
  match readInt lo hi s with
  | .ok n => .ok n
  | .error fault => .error (.numeral fault)

instance : BoundText Int64 where
  write n := writeInt n.toInt
  read s := (readBoundInt Int64.minValue.toInt Int64.maxValue.toInt s).map Int64.ofInt

instance : BoundText Int32 where
  write n := writeInt n.toInt
  read s := (readBoundInt Int32.minValue.toInt Int32.maxValue.toInt s).map Int32.ofInt

instance : BoundText Instant where
  write t := t.write Instant.shortFraction
  read s :=
    match readStrict s with
    | .ok t => .ok t
    | .error fault => .error (.time fault)

variable {α : Type} [BoundText α]

def readBound (s : List Char) : Except FormatError α :=
  match BoundText.read (trim s) with
  | .ok a => .ok a
  | .error fault => .error (.invalidBound (String.ofList s) fault)

def readOptionalBound : List Char → Except FormatError (Option α)
  | [] => .ok none
  | s => (readBound s).map some

def writeOptionalBound : Option α → List Char
  | none => []
  | some a => BoundText.write a

namespace Bounds

def separator : Char := ';'

def write (r : Bounds α) : List Char :=
  [separator].intercalate
    ([r.start, r.stop, r.least, r.most].map writeOptionalBound)

def display (r : Bounds α) : String := String.ofList r.write

def readItems (a b c d : List Char) : Except FormatError (Bounds α) := do
  let start ← readOptionalBound a
  let stop ← readOptionalBound b
  let least ← readOptionalBound c
  let most ← readOptionalBound d
  return ⟨start, stop, least, most⟩

def readChars (s : List Char) : Except FormatError (Bounds α) :=
  match s.splitOn separator with
  | [a, b, c, d] => readItems a b c d
  | items => .error (.boundsFieldCount (String.ofList s) items.length)

def read (s : String) : Except FormatError (Bounds α) := readChars s.toList

end Bounds

end RecordQuery
