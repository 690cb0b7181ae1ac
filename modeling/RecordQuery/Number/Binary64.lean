import RecordQuery.Number.Scaled
import RecordQuery.Text.Numeral

namespace RecordQuery.Number

open RecordQuery.Text

/-- A binary number of double width. A finite one counts the smallest positive one, `2 ^ -1074`;
zero has no sign. -/
inductive Binary64 where
  | finite (units : Int)
  | infinite (negative : Bool)
  deriving DecidableEq, Repr

namespace Binary64

def places : Nat := 1074

def one : Nat := twoTo places

def largest : Nat := (twoTo 53 - 1) * twoTo 2045

def signed (negative : Bool) (n : Nat) : Int := if negative then -n else n

def ofUnits (negative : Bool) (units : Nat) : Binary64 :=
  if largest < units then infinite negative else finite (signed negative units)

def ofScaled (negative : Bool) (a : Scaled) : Binary64 :=
  match a.exponent + places with
  | .ofNat n =>
      let units := a.significand * twoTo n
      let drop := bitLength units - 53
      ofUnits negative (roundDiv units (twoTo drop) * twoTo drop)
  | .negSucc n =>
      let drop := max (n + 1) (bitLength a.significand - 53)
      ofUnits negative (roundDiv a.significand (twoTo drop) * twoTo (drop - (n + 1)))

def ofInt (n : Int) : Binary64 := ofScaled (n < 0) (.ofNat n.natAbs)

def exactly (n : Int) : Binary64 := finite (n * one)

def side : Binary64 → Int
  | finite _ => 0
  | infinite negative => if negative then -1 else 1

def units : Binary64 → Int
  | finite n => n
  | infinite _ => 0

def compare (a b : Binary64) : Ordering :=
  (Ord.compare a.side b.side).then (Ord.compare a.units b.units)

def whole? : Binary64 → Option Int
  | finite n => if n % one = 0 then some (n / one) else none
  | infinite _ => none

def succ : Binary64 → Binary64
  | finite n => ofScaled (n + one < 0) ⟨(n + one).natAbs, -places⟩
  | infinite negative => infinite negative

theorem compare_self (a : Binary64) : a.compare a = .eq := by
  cases a <;> simp [compare]

theorem whole?_exactly (n : Int) : (exactly n).whole? = some n := by
  have h : (one : Int) ≠ 0 := Int.natCast_ne_zero_iff_pos.mpr (twoTo_pos places)
  rw [exactly, whole?, if_pos (Int.mul_emod_left ..), Int.mul_ediv_cancel _ h]

def decimalOne : Nat := tenTo 400

def readsBack (units decimal : Nat) : Bool :=
  let length := bitLength units
  let above := twoTo (length - 53)
  let below := if units = twoTo (length - 1) && 1 < above then above / 2 else above
  let low := (2 * units - below) * decimalOne
  let high := (2 * units + above) * decimalOne
  let twice := 2 * decimal * one
  if units / above % 2 = 0 then low ≤ twice && twice ≤ high else low < twice && twice < high

def onGrid? (units step : Nat) : Option Nat :=
  let exact := units * decimalOne
  let low := exact / (one * step) * step
  let high := low + step
  let (near, far) :=
    if high * one - exact ≤ exact - low * one then (high, low) else (low, high)
  if readsBack units near then some near else if readsBack units far then some far else none

def shortest (units : Nat) : Nat :=
  let length := (writeNat (units * decimalOne / one)).length
  ((List.range 17).findSome? fun n => onGrid? units (tenTo (length - (n + 1)))).getD 0

def writeSign (negative : Bool) : List Char := if negative then ['-'] else []

def writePositional (decimal : Nat) : List Char :=
  let fraction := trimZeros (writePadded 400 (decimal % decimalOne))
  writeNat (decimal / decimalOne) ++ (if fraction.isEmpty then [] else '.' :: fraction)

def write : Binary64 → List Char
  | finite n => writeSign (n < 0) ++ writePositional (shortest n.natAbs)
  | infinite negative => writeSign negative ++ "inf".toList

def display (a : Binary64) : String := String.ofList a.write

end Binary64

end RecordQuery.Number
