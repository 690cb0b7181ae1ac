import RecordQuery.Time.Calendar

namespace RecordQuery.Time

def nanosPerSecond : Int := 1000000000

/-- A point of universal time as a clock or a text gives it. The nanoseconds of a leap second run on
from one thousand million, so that it follows the last second of its minute. A time put together
from parts, which can have such nanoseconds in any second, is not modelled. -/
structure Instant where
  date : Date
  second : Nat
  nano : Nat
  second_lt : second < 86400
  nano_lt : nano < 2000000000
  leap_last : 1000000000 ≤ nano → second % 60 = 59
  deriving DecidableEq, Repr

namespace Instant

instance : Ord Instant :=
  ⟨compareLex (compareOn (·.date.year)) (compareLex (compareOn (·.date.month))
    (compareLex (compareOn (·.date.day)) (compareLex (compareOn (·.second))
      (compareOn (·.nano)))))⟩

def epoch : Instant := ⟨.epoch, 0, 0, by decide, by decide, by decide⟩

instance : Inhabited Instant := ⟨epoch⟩

def minusMinutes (t : Instant) (minutes : Int) : Instant :=
  let s := t.second - 60 * minutes
  ⟨t.date.addDays (s / 86400), (s % 86400).toNat, t.nano, by omega, t.nano_lt, fun h => by
    have := t.leap_last h
    omega⟩

theorem minusMinutes_zero (t : Instant) : t.minusMinutes 0 = t := by
  obtain ⟨date, second, nano, hs, hn, hl⟩ := t
  have h0 : ((second : Int) - 60 * 0) / 86400 = 0 := by omega
  have h1 : (((second : Int) - 60 * 0) % 86400).toNat = second := by omega
  simp only [minusMinutes, h0, h1, Date.addDays_zero]

def ofNanos (date : Date) (nanos : Int) : Instant :=
  ⟨date.addDays (nanos / 86400000000000), (nanos % 86400000000000 / 1000000000).toNat,
    (nanos % 1000000000).toNat, by omega, by omega, fun h => by omega⟩

/-- Moves the clock by a number of nanoseconds. A move that stays within a leap second stays in it,
and one that leaves it counts the leap second as the second before. -/
def advance (t : Instant) (nanos : Int) : Instant :=
  let whole := nanos.tdiv nanosPerSecond
  let part := nanos.tmod nanosPerSecond
  let start := t.second * nanosPerSecond + t.nano
  if h : 1000000000 ≤ t.nano then
    if hf : 0 < whole ∨ (0 < part ∧ 2000000000 - part ≤ t.nano) then
      ofNanos t.date (start - nanosPerSecond + nanos)
    else if whole < 0 then ofNanos t.date (start + nanos)
    else
      ⟨t.date, t.second, (t.nano + part).toNat, t.second_lt, by have := t.nano_lt; omega,
        fun _ => t.leap_last h⟩
  else ofNanos t.date (start + nanos)

def advanceMillis (t : Instant) (millis : Int) : Instant := t.advance (millis * 1000000)

end Instant

end RecordQuery.Time
