import RecordQuery.Number.Scaled
import RecordQuery.Text.Numeral

namespace RecordQuery.Number.Extended

open RecordQuery.Text

def width : Nat := 64

def power (n : Nat) : Scaled := .round width (.ofNat (tenTo n))

def inversePower (n : Nat) : Scaled := .inverse width (tenTo n)

def times (factor : Scaled) (n : Nat) (a : Scaled) : Scaled :=
  Nat.repeat (Scaled.mul width factor) n a

def applied (powerOf : Nat → Scaled) (n : Nat) (a : Scaled) : Scaled :=
  times (powerOf 1) (n % 10) (times (powerOf 10) (n % 100 / 10) (times (powerOf 100) (n / 100) a))

def raise : Nat → Scaled → Scaled := applied power

def lower : Nat → Scaled → Scaled := applied inversePower

def track (test : Scaled → Bool) (factor : Scaled) (step : Int) :
    Nat → Scaled × Int → Scaled × Int
  | 0, x => x
  | fuel + 1, (a, exponent) =>
      if test a then track test factor step fuel (a.mul width factor, exponent + step)
      else (a, exponent)

def longest : Nat := 32

def shrink (a : Scaled) : Scaled × Int :=
  let notBelow (n : Nat) (a : Scaled) := !a.less (power n)
  track (notBelow 19) (inversePower 1) 1 longest
    (track (notBelow 29) (inversePower 10) 10 longest
      (track (notBelow 119) (inversePower 100) 100 longest (a, 0)))

def grow (a : Scaled) : Scaled × Int :=
  track (·.less (power 17)) (power 1) (-1) longest
    (track (·.less (power 7)) (power 10) (-10) longest
      (track (·.less (inversePower 97)) (power 100) (-100) longest (a, 0)))

def decimal (a : Scaled) : Nat × Int :=
  let (b, exponent) := if a.less (power 19) then grow a else shrink a
  (b.floor, exponent)

end RecordQuery.Number.Extended
