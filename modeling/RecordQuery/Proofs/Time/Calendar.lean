import Mathlib.Tactic.IntervalCases
import RecordQuery.Time.Instant

namespace RecordQuery.Time

def yearLength (year : Int) : Nat := if isLeap year then 366 else 365

def yearStart (year : Int) : Int :=
  365 * year + (year + 3) / 4 - (year + 99) / 100 + (year + 399) / 400

theorem yearStart_succ (year : Int) : yearStart (year + 1) = yearStart year + yearLength year := by
  unfold yearStart yearLength isLeap
  split
  · rename_i h
    simp only [Bool.and_eq_true, Bool.or_eq_true, beq_iff_eq, bne_iff_ne, ne_eq] at h
    omega
  · rename_i h
    simp only [Bool.and_eq_true, Bool.or_eq_true, beq_iff_eq, bne_iff_ne, ne_eq] at h
    omega

theorem yearStart_le {year year' : Int} (h : year ≤ year') : yearStart year ≤ yearStart year' := by
  unfold yearStart
  omega

theorem yearStart_cycle (year k : Int) :
    yearStart (year + 400 * k) = yearStart year + Date.cycleDays * k := by
  unfold yearStart Date.cycleDays
  omega

def monthStart (year : Int) : Nat → Nat
  | 0 => 0
  | 1 => 0
  | m + 2 => monthStart year (m + 1) + daysIn year (m + 1)

theorem monthStart_succ (year : Int) {month : Nat} (h : 1 ≤ month) :
    monthStart year (month + 1) = monthStart year month + daysIn year month := by
  obtain ⟨m, rfl⟩ := Nat.exists_eq_add_of_le' h
  rfl

theorem monthStart_cycle (year k : Int) (month : Nat) :
    monthStart (year + 400 * k) month = monthStart year month := by
  induction month using monthStart.induct with
  | case1 => rfl
  | case2 => rfl
  | case3 m ih => rw [monthStart, monthStart, ih, daysIn_cycle]

theorem monthStart_last (year : Int) : monthStart year 12 + 31 = yearLength year := by
  simp only [monthStart, daysIn, yearLength]
  split <;> rfl

theorem monthEnd_lt (year : Int) {month : Nat} (h : 1 ≤ month) (hlast : month ≤ 11) :
    monthStart year month + daysIn year month < yearLength year := by
  rw [← monthStart_last]
  interval_cases month <;> simp only [monthStart, daysIn] <;> omega

namespace Date

variable (d : Date)

def dayOfYear : Nat := monthStart d.year d.month + d.day

def number : Int := yearStart d.year + d.dayOfYear

theorem dayOfYear_le : d.dayOfYear ≤ yearLength d.year := by
  have hday := d.day_le
  have hmonth := d.month_le
  unfold dayOfYear
  by_cases hlast : d.month ≤ 11
  · have := monthEnd_lt d.year d.month_pos hlast
    omega
  · have hm : d.month = 12 := by omega
    have := monthStart_last d.year
    rw [hm] at hday ⊢
    have hdays : daysIn d.year 12 = 31 := rfl
    omega

theorem number_next : d.next.number = d.number + 1 := by
  have hday := d.day_le
  have hmonth := d.month_le
  unfold next
  split
  · simp only [number, dayOfYear]
    omega
  · split
    · have hnext := monthStart_succ d.year d.month_pos
      simp only [number, dayOfYear, hnext]
      omega
    · have hm : d.month = 12 := by omega
      have hyear := yearStart_succ d.year
      have hlast := monthStart_last d.year
      have hdays : daysIn d.year 12 = 31 := rfl
      simp only [number, dayOfYear, hm, hyear, monthStart] at *
      omega

theorem number_later (n : Nat) : (later n d).number = d.number + n := by
  induction n generalizing d with
  | zero => exact (Int.add_zero _).symm
  | succ n ih =>
      rw [later, ih, number_next]
      omega

theorem number_shiftCycles (k : Int) : (d.shiftCycles k).number = d.number + cycleDays * k := by
  simp only [number, dayOfYear, shiftCycles, yearStart_cycle, monthStart_cycle]
  omega

theorem number_addDays (n : Int) : (d.addDays n).number = d.number + n := by
  have hpos : 0 ≤ n % cycleDays := Int.emod_nonneg n (by decide)
  have hparts := Int.emod_add_mul_ediv n cycleDays
  rw [addDays, number_later, number_shiftCycles, Int.toNat_of_nonneg hpos]
  omega

theorem yearStart_lt_number : yearStart d.year < d.number := by
  have hday := d.day_pos
  unfold number dayOfYear
  omega

theorem number_le_yearStart : d.number ≤ yearStart (d.year + 1) := by
  have h := d.dayOfYear_le
  rw [yearStart_succ]
  unfold number
  omega

theorem first_of_number (h : d.number = yearStart d.year + 1) : d.month = 1 ∧ d.day = 1 := by
  have hday := d.day_pos
  have hsum : monthStart d.year d.month + d.day = 1 := by
    unfold number dayOfYear at h
    omega
  have hmonth : d.month ≤ 1 := by
    by_contra hmonth
    obtain ⟨m, hm⟩ := Nat.exists_eq_add_of_le' (Nat.lt_of_not_le hmonth)
    have hfull := daysIn_pos d.year (m + 1)
    rw [hm, monthStart] at hsum
    omega
  have hpos := d.month_pos
  omega

theorem last_of_number (h : d.number = yearStart (d.year + 1)) : d.month = 12 ∧ d.day = 31 := by
  have hday := d.day_le
  have hmonth := d.month_le
  have hsum : monthStart d.year d.month + d.day = yearLength d.year := by
    rw [yearStart_succ] at h
    unfold number dayOfYear at h
    omega
  have hlast : d.month = 12 := by
    by_contra hne
    have hend := monthEnd_lt d.year d.month_pos (by omega)
    omega
  have hyear := monthStart_last d.year
  rw [hlast] at hsum
  omega

/-- The day before the years of four digits, or the day after them. -/
def OnEdge : Prop :=
  d.year = -1 ∧ d.month = 12 ∧ d.day = 31 ∨ d.year = 10000 ∧ d.month = 1 ∧ d.day = 1

instance (d : Date) : Decidable d.OnEdge := inferInstanceAs (Decidable (_ ∨ _))

theorem addDays_edge {d : Date} (hleast : 0 ≤ d.year) (hmost : d.year ≤ 9999) {n : Int}
    (hback : -1 ≤ n) (hon : n ≤ 1) :
    0 ≤ (d.addDays n).year ∧ (d.addDays n).year ≤ 9999 ∨ (d.addDays n).OnEdge := by
  have hnumber := d.number_addDays n
  generalize d.addDays n = e at hnumber
  have hfirst : yearStart 0 ≤ yearStart d.year := yearStart_le hleast
  have hlast : yearStart (d.year + 1) ≤ yearStart 10000 := yearStart_le (by omega)
  have habove := d.yearStart_lt_number
  have hbelow := d.number_le_yearStart
  have heabove := e.yearStart_lt_number
  have hebelow := e.number_le_yearStart
  rcases Int.lt_or_le e.year 0 with hneg | hpos
  · refine .inr (.inl ?_)
    have hend : yearStart (e.year + 1) ≤ yearStart 0 := yearStart_le (by omega)
    have hyear : e.year = -1 := by
      by_contra hne
      have hbefore : yearStart (e.year + 1) ≤ yearStart (-1) := yearStart_le (by omega)
      have : yearStart (-1) + 1 < yearStart 0 := by decide
      omega
    exact ⟨hyear, e.last_of_number (by omega)⟩
  rcases Int.lt_or_le 9999 e.year with hbig | hsmall
  · refine .inr (.inr ?_)
    have hstart : yearStart 10000 ≤ yearStart e.year := yearStart_le (by omega)
    have hyear : e.year = 10000 := by
      by_contra hne
      have hafter : yearStart 10001 ≤ yearStart e.year := yearStart_le (by omega)
      have : yearStart 10000 + 1 < yearStart 10001 := by decide
      omega
    exact ⟨hyear, e.first_of_number (by omega)⟩
  · exact .inl ⟨hpos, hsmall⟩

end Date

end RecordQuery.Time
