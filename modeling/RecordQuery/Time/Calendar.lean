namespace RecordQuery.Time

def isLeap (year : Int) : Bool := year % 4 == 0 && (year % 100 != 0 || year % 400 == 0)

def daysIn (year : Int) : Nat → Nat
  | 2 => if isLeap year then 29 else 28
  | 4 => 30
  | 6 => 30
  | 9 => 30
  | 11 => 30
  | _ => 31

theorem daysIn_pos (year : Int) (month : Nat) : 1 ≤ daysIn year month := by
  unfold daysIn
  split <;> (try split) <;> omega

theorem isLeap_cycle (year k : Int) : isLeap (year + 400 * k) = isLeap year := by
  have h4 : (year + 400 * k) % 4 = year % 4 := by omega
  have h100 : (year + 400 * k) % 100 = year % 100 := by omega
  have h400 : (year + 400 * k) % 400 = year % 400 := by omega
  simp only [isLeap, h4, h100, h400]

theorem daysIn_cycle (year k : Int) (month : Nat) :
    daysIn (year + 400 * k) month = daysIn year month := by
  unfold daysIn
  simp only [isLeap_cycle]

structure Date where
  year : Int
  month : Nat
  day : Nat
  month_pos : 1 ≤ month
  month_le : month ≤ 12
  day_pos : 1 ≤ day
  day_le : day ≤ daysIn year month
  deriving DecidableEq, Repr

namespace Date

def of? (year : Int) (month day : Nat) : Option Date :=
  if h : (1 ≤ month ∧ month ≤ 12) ∧ 1 ≤ day ∧ day ≤ daysIn year month then
    some ⟨year, month, day, h.1.1, h.1.2, h.2.1, h.2.2⟩
  else none

theorem of?_self (d : Date) : of? d.year d.month d.day = some d :=
  dif_pos ⟨⟨d.month_pos, d.month_le⟩, d.day_pos, d.day_le⟩

def epoch : Date := ⟨1970, 1, 1, by decide, by decide, by decide, by decide⟩

def next (d : Date) : Date :=
  if h : d.day + 1 ≤ daysIn d.year d.month then
    ⟨d.year, d.month, d.day + 1, d.month_pos, d.month_le, by omega, h⟩
  else if h : d.month + 1 ≤ 12 then
    ⟨d.year, d.month + 1, 1, by omega, h, by decide, daysIn_pos ..⟩
  else ⟨d.year + 1, 1, 1, by decide, by decide, by decide, daysIn_pos ..⟩

def later : Nat → Date → Date
  | 0, d => d
  | n + 1, d => later n d.next

def shiftCycles (d : Date) (k : Int) : Date :=
  ⟨d.year + 400 * k, d.month, d.day, d.month_pos, d.month_le, d.day_pos,
    (daysIn_cycle d.year k d.month).symm ▸ d.day_le⟩

def cycleDays : Int := 146097

def addDays (d : Date) (n : Int) : Date :=
  later (n % cycleDays).toNat (d.shiftCycles (n / cycleDays))

theorem addDays_zero (d : Date) : d.addDays 0 = d := by
  cases d
  simp [addDays, later, shiftCycles]

end Date

end RecordQuery.Time
