import RecordQuery.Number.Binary64
import RecordQuery.Number.Extended

namespace RecordQuery.Number

open RecordQuery.Text

structure Reading where
  negative : Bool
  whole : List Char
  fraction : Option (List Char)
  exponent : Option (Bool × List Char)
  rest : List Char
  deriving DecidableEq, Repr

namespace Reading

def isSpace (c : Char) : Bool := c == ' ' || ('\t' ≤ c && c ≤ '\r')

def splitDigits (s : List Char) : List Char × List Char :=
  (s.takeWhile Char.isDigit, s.dropWhile Char.isDigit)

def splitSign : List Char → Bool × List Char
  | '-' :: rest => (true, rest)
  | '+' :: rest => (false, rest)
  | s => (false, s)

def splitFraction : List Char → Option (List Char) × List Char
  | '.' :: s =>
      let (digits, rest) := splitDigits s
      (some digits, rest)
  | s => (none, s)

def splitExponent : List Char → Option (Bool × List Char) × List Char
  | c :: s =>
      if c == 'e' || c == 'E' then
        let (negative, s) := splitSign s
        let (digits, rest) := splitDigits s
        (some (negative, digits), rest)
      else (none, c :: s)
  | [] => (none, [])

def read (s : List Char) : Reading :=
  let (negative, s) := splitSign (s.dropWhile isSpace)
  let (whole, s) := splitDigits s
  let (fraction, s) := splitFraction s
  let (exponent, s) := splitExponent s
  ⟨negative, whole, fraction, exponent, s.dropWhile isSpace⟩

def hasDigits (r : Reading) : Bool := !r.whole.isEmpty || !(r.fraction.getD []).isEmpty

def hasExponent (r : Reading) : Bool := r.exponent.any fun e => !e.2.isEmpty

def isComplete (r : Reading) : Bool :=
  r.hasDigits && (r.exponent.isNone || r.hasExponent) && r.rest.isEmpty

def integer (r : Reading) : Int := Binary64.signed r.negative (ofDigits r.whole)

def wholeOf? (r : Reading) : Option Int64 :=
  if r.integer < Int64.minValue.toInt || Int64.maxValue.toInt < r.integer then none
  else some (.ofInt r.integer)

def fullAt : Nat := 1844674407370955160

abbrev Digits := Nat × Int

def takeWhole (d : Digits) (c : Char) : Digits :=
  if d.1 < fullAt then (d.1 * 10 + digitValue c, d.2) else (d.1, d.2 + 1)

def takeFraction (d : Digits) (c : Char) : Digits :=
  if d.1 < fullAt then (d.1 * 10 + digitValue c, d.2 - 1) else d

def digits (r : Reading) : Digits :=
  (r.fraction.getD []).foldl takeFraction (r.whole.foldl takeWhole (0, 0))

def exponentOf (digits : List Char) : Nat :=
  digits.foldl (fun n c => if n < 10000 then n * 10 + digitValue c else 10000) 0

def power (r : Reading) : Int :=
  match r.exponent with
  | none => 0
  | some (negative, digits) => Binary64.signed negative (exponentOf digits)

def absorb : Nat → Nat → Nat × Nat
  | significand, 0 => (significand, 0)
  | significand, n + 1 =>
      if significand ≤ fullAt then absorb (significand * 10) n else (significand, n + 1)

def cancel : Nat → Nat → Nat × Nat
  | significand, 0 => (significand, 0)
  | significand, n + 1 =>
      if significand % 10 = 0 then cancel (significand / 10) n else (significand, n + 1)

def scaled (significand : Nat) (power : Int) : Scaled :=
  if power < 0 then
    let (n, k) := cancel significand power.natAbs
    Extended.lower k (.ofNat n)
  else
    let (n, k) := absorb significand power.natAbs
    Extended.raise k (.ofNat n)

def toBinary64 (r : Reading) : Binary64 :=
  let (significand, shift) := r.digits
  if significand = 0 then .finite 0
  else
    let a := scaled significand (r.power + shift)
    if Scaled.less ⟨Binary64.largest, -Binary64.places⟩ a then .infinite r.negative
    else .ofScaled r.negative a

end Reading

end RecordQuery.Number
