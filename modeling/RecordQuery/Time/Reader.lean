import RecordQuery.Text.Blank
import RecordQuery.Text.Numeral
import RecordQuery.Time.Instant

namespace RecordQuery.Time

open RecordQuery.Text

inductive TimeFault where
  | premature
  | invalid
  | outOfRange
  | trailing
  deriving DecidableEq, Repr

def TimeFault.message : TimeFault → String
  | .premature => "premature end of input"
  | .invalid => "input contains invalid characters"
  | .outOfRange => "input is out of range"
  | .trailing => "trailing input"

abbrev Reading (α : Type) := Except TimeFault (α × List Char)

def fixedDigits : Nat → Nat → List Char → Reading Nat
  | 0, acc, s => .ok (acc, s)
  | n + 1, acc, c :: rest =>
      if c.isDigit then fixedDigits n (10 * acc + digitValue c) rest else .error .invalid
  | _ + 1, _, [] => .error .invalid

def literal (c : Char) : List Char → Except TimeFault (List Char)
  | d :: rest => if d = c then .ok rest else .error .invalid
  | [] => .error .invalid

def separator : List Char → Except TimeFault (List Char)
  | c :: rest => if c = 'T' ∨ c = 't' ∨ c = ' ' then .ok rest else .error .invalid
  | [] => .error .invalid

def nanosOf (digits : List Char) : Nat :=
  ofDigits (digits.take 9) * tenTo (9 - (digits.take 9).length)

def fraction : List Char → Reading Nat
  | '.' :: [] => .error .premature
  | '.' :: c :: rest =>
      if c.isDigit then
        .ok (nanosOf ((c :: rest).takeWhile Char.isDigit), (c :: rest).dropWhile Char.isDigit)
      else .error .invalid
  | s => .ok (0, s)

def instantOf (date : Date) (hour minute second nanos : Nat) : Except TimeFault Instant :=
  if h : hour ≤ 23 ∧ minute ≤ 59 ∧ second ≤ 60 ∧ nanos < 1000000000 then
    if hs : second = 60 then
      .ok ⟨date, hour * 3600 + minute * 60 + 59, 1000000000 + nanos, by omega, by omega,
        fun _ => by omega⟩
    else
      .ok ⟨date, hour * 3600 + minute * 60 + second, nanos, by omega, by omega,
        fun _ => by omega⟩
  else .error .outOfRange

def byteLength (s : List Char) : Nat := (String.ofList s).utf8ByteSize

def offsetMinutes (sign : Int) (hours : Nat) : List Char → Reading Int
  | m :: n :: rest =>
      if m.isDigit && n.isDigit then
        if digitValue m ≤ 5 then
          .ok (sign * (hours * 60 + digitValue m * 10 + digitValue n), rest)
        else .error .outOfRange
      else .error .invalid
  | s => if byteLength s < 2 then .error .premature else .error .invalid

def offsetColon (sign : Int) (hours : Nat) : List Char → Reading Int
  | [] => .error .premature
  | ':' :: rest => offsetMinutes sign hours rest
  | _ => .error .invalid

def offsetHours (next : Nat → List Char → Reading Int) : List Char → Reading Int
  | h :: k :: rest =>
      if h.isDigit && k.isDigit then next (digitValue h * 10 + digitValue k) rest
      else .error .invalid
  | s => if byteLength s < 2 then .error .premature else .error .invalid

def offset (next : Int → Nat → List Char → Reading Int) : List Char → Reading Int
  | [] => .error .premature
  | c :: rest =>
      if c = 'Z' ∨ c = 'z' then .ok (0, rest)
      else if c = '+' then offsetHours (next 1) rest
      else if c = '-' ∨ c = '\u2212' then offsetHours (next (-1)) rest
      else .error .invalid

def inYears (year : Int) : Bool := -262143 ≤ year && year ≤ 262142

def universal (wall : Instant) (minutes : Int) : Except TimeFault Instant :=
  if minutes.natAbs < 1440 then
    let t := wall.minusMinutes minutes
    if inYears t.date.year then .ok t else .error .outOfRange
  else .error .outOfRange

def readStrict (s : List Char) : Except TimeFault Instant := do
  if byteLength s < 19 then throw .premature
  let (year, s) ← fixedDigits 4 0 s
  let s ← literal '-' s
  let (month, s) ← fixedDigits 2 0 s
  let s ← literal '-' s
  let (day, s) ← fixedDigits 2 0 s
  match Date.of? year month day with
  | none => throw .outOfRange
  | some date =>
      let s ← separator s
      let (hour, s) ← fixedDigits 2 0 s
      let s ← literal ':' s
      let (minute, s) ← fixedDigits 2 0 s
      let s ← literal ':' s
      let (second, s) ← fixedDigits 2 0 s
      let (nanos, s) ← fraction s
      let t ← instantOf date hour minute second nanos
      let (minutes, s) ← offset offsetColon s
      if s.isEmpty then universal t minutes else throw .trailing

def looseNumber (width : Nat) (s : List Char) : Reading Nat :=
  let s := trimStart s
  let digits := (s.take width).takeWhile Char.isDigit
  if digits.isEmpty then .error .invalid else .ok (ofDigits digits, s.drop digits.length)

def looseYear (s : List Char) : Reading Int :=
  match trimStart s with
  | '-' :: rest =>
      let digits := rest.takeWhile Char.isDigit
      if digits.isEmpty then .error .invalid
      else .ok (-(ofDigits digits : Int), rest.drop digits.length)
  | '+' :: rest =>
      let digits := rest.takeWhile Char.isDigit
      if digits.isEmpty then .error .invalid
      else .ok ((ofDigits digits : Int), rest.drop digits.length)
  | s => (looseNumber 4 s).map (fun r => ((r.1 : Int), r.2))

def looseDate (year : Int) (month day : Nat) : Except TimeFault Date :=
  match Date.of? year month day with
  | some date => if inYears year then .ok date else .error .outOfRange
  | none => .error .outOfRange

def readPlain (s : List Char) : Except TimeFault Instant := do
  let (year, s) ← looseYear s
  let s ← literal '-' s
  let (month, s) ← looseNumber 2 s
  let s ← literal '-' s
  let (day, s) ← looseNumber 2 s
  let (hour, s) ← looseNumber 2 s
  let s ← literal ':' s
  let (minute, s) ← looseNumber 2 s
  let s ← literal ':' s
  let (second, s) ← looseNumber 2 s
  if s.isEmpty then
    let date ← looseDate year month day
    instantOf date hour minute second 0
  else throw .trailing

def relaxedMinutes (sign : Int) (hours : Nat) (s : List Char) : Reading Int :=
  offsetMinutes sign hours (s.dropWhile (fun c => c == ':' || isBlank c))

def relaxedOffset (s : List Char) : Reading Int :=
  match s with
  | u :: t :: c :: rest =>
      if lowerWord [u, t, c] = ['u', 't', 'c'] then .ok (0, rest) else offset relaxedMinutes s
  | _ => offset relaxedMinutes s
where
  lowerWord (w : List Char) : List Char := w.map Char.toLower

def readRelaxed (s : List Char) : Except TimeFault Instant := do
  let (year, s) ← looseYear s
  let s ← literal '-' (trimStart s)
  let (month, s) ← looseNumber 2 s
  let s ← literal '-' (trimStart s)
  let (day, s) ← looseNumber 2 s
  let s ← separator s
  let (hour, s) ← looseNumber 2 s
  let s ← literal ':' (trimStart s)
  let (minute, s) ← looseNumber 2 s
  let s ← literal ':' (trimStart s)
  let (second, s) ← looseNumber 2 s
  let (nanos, s) ← fraction s
  let (minutes, s) ← relaxedOffset (trimStart s)
  if (trimStart s).isEmpty then
    let date ← looseDate year month day
    let t ← instantOf date hour minute second nanos
    universal t minutes
  else throw .trailing

namespace Instant

def read? (s : String) : Option Instant :=
  match readStrict s.toList with
  | .ok t => some t
  | .error _ =>
      match readPlain s.toList with
      | .ok t => some t
      | .error _ => none

end Instant

end RecordQuery.Time
