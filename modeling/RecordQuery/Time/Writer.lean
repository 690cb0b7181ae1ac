import RecordQuery.Text.Numeral
import RecordQuery.Time.Instant

namespace RecordQuery.Time

open RecordQuery.Text

def writeYear (year : Int) : List Char :=
  if 0 ≤ year ∧ year ≤ 9999 then writePadded 4 year.toNat
  else (if year < 0 then '-' else '+') :: writePadded 4 year.natAbs

def writeDate (d : Date) : List Char :=
  writeYear d.year ++ '-' :: writePadded 2 d.month ++ '-' :: writePadded 2 d.day

namespace Instant

def secondOfMinute (t : Instant) : Nat :=
  if 1000000000 ≤ t.nano then t.second % 60 + 1 else t.second % 60

def nanoOfSecond (t : Instant) : Nat :=
  if 1000000000 ≤ t.nano then t.nano - 1000000000 else t.nano

def writeClock (t : Instant) : List Char :=
  writePadded 2 (t.second / 3600) ++ ':' :: writePadded 2 (t.second / 60 % 60) ++
    ':' :: writePadded 2 t.secondOfMinute

def write (fraction : Nat → List Char) (t : Instant) : List Char :=
  writeDate t.date ++ 'T' :: t.writeClock ++ fraction t.nanoOfSecond ++ ['Z']

def shortFraction (nanos : Nat) : List Char :=
  if nanos = 0 then []
  else if nanos % 1000000 = 0 then '.' :: writePadded 3 (nanos / 1000000)
  else if nanos % 1000 = 0 then '.' :: writePadded 6 (nanos / 1000)
  else '.' :: writePadded 9 nanos

def microFraction (nanos : Nat) : List Char := '.' :: writePadded 6 (nanos / 1000)

def text (t : Instant) : String := String.ofList (t.write shortFraction)

def stored (t : Instant) : String := String.ofList (t.write microFraction)

end Instant

end RecordQuery.Time
