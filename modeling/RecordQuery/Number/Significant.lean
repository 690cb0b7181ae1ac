import RecordQuery.Number.Binary64
import RecordQuery.Number.Extended

namespace RecordQuery.Number

open RecordQuery.Text

structure Significant where
  digits : List Char
  point : Int
  deriving DecidableEq, Repr

namespace Significant

def rounded (width : Nat) (digits : List Char) (point : Int) : Significant :=
  if digits.length ≤ width then ⟨trimZeros digits, point⟩
  else
    let up := if ((digits.drop width).headD '0') < '5' then 0 else 1
    let kept := writeNat (ofDigits (digits.take width) + up)
    ⟨trimZeros kept, point + (kept.length - width : Int)⟩

def someDigits (digits : List Char) : List Char := if digits.isEmpty then ['0'] else digits

def writePlain (s : Significant) : List Char :=
  let before := s.point.toNat
  let zeros (n : Nat) := List.replicate n '0'
  someDigits (s.digits.take before ++ zeros (before - s.digits.length)) ++ '.' ::
    someDigits (zeros (-s.point).toNat ++ s.digits.drop before)

def writeWithExponent (s : Significant) : List Char :=
  let exponent := s.point - 1
  s.digits.take 1 ++ '.' :: someDigits (s.digits.drop 1) ++ 'e' ::
    (if exponent < 0 then '-' else '+') :: writePadded 2 exponent.natAbs

def write (width : Nat) (s : Significant) : List Char :=
  if s.point < -3 || (width : Int) < s.point then s.writeWithExponent else s.writePlain

end Significant

def Binary64.writeSignificant (width : Nat) : Binary64 → List Char
  | .infinite negative => writeSign negative ++ "Inf".toList
  | .finite n =>
      if n = 0 then "0.0".toList
      else
        let (whole, exponent) := Extended.decimal ⟨n.natAbs, -places⟩
        let digits := writeNat whole
        writeSign (n < 0) ++
          (Significant.rounded width digits (digits.length + exponent)).write width

end RecordQuery.Number
