import RecordQuery.Proofs.Text.Folding
import RecordQuery.Proofs.Text.Order
import RecordQuery.Time.Writer

namespace RecordQuery.Time

open RecordQuery.Text

namespace Instant

variable {t u : Instant}

structure Storable (t : Instant) : Prop where
  year_nonneg : 0 ≤ t.date.year
  year_le : t.date.year ≤ 9999
  micros : t.nano % 1000 = 0

instance (t : Instant) : Decidable t.Storable :=
  decidable_of_iff (0 ≤ t.date.year ∧ t.date.year ≤ 9999 ∧ t.nano % 1000 = 0)
    ⟨fun h => ⟨h.1, h.2.1, h.2.2⟩, fun h => ⟨h.1, h.2, h.3⟩⟩

def stamp (mark zone : Char) (t : Instant) : List Char :=
  writePadded 4 t.date.year.toNat ++ '-' :: (writePadded 2 t.date.month ++ '-' ::
    (writePadded 2 t.date.day ++ mark :: (writePadded 2 (t.second / 3600) ++ ':' ::
      (writePadded 2 (t.second / 60 % 60) ++ ':' :: (writePadded 2 t.secondOfMinute ++ '.' ::
        (writePadded 6 (t.nanoOfSecond / 1000) ++ [zone]))))))

theorem stored_toList (h : t.Storable) : t.stored.toList = stamp 'T' 'Z' t := by
  have hyear : writeYear t.date.year = writePadded 4 t.date.year.toNat :=
    if_pos ⟨h.year_nonneg, h.year_le⟩
  simp [stored, write, writeDate, writeClock, microFraction, stamp, hyear]

theorem month_lt (t : Instant) : t.date.month < 10 ^ 2 := by
  have := t.date.month_le
  omega

theorem day_lt (t : Instant) : t.date.day < 10 ^ 2 := by
  have hle := t.date.day_le
  have hdays : daysIn t.date.year t.date.month ≤ 31 := by
    unfold daysIn
    split <;> (try split) <;> omega
  omega

theorem hour_lt (t : Instant) : t.second / 3600 < 10 ^ 2 := by
  have := t.second_lt
  omega

theorem minute_lt (t : Instant) : t.second / 60 % 60 < 10 ^ 2 := by omega

theorem secondOfMinute_lt (t : Instant) : t.secondOfMinute < 10 ^ 2 := by
  unfold secondOfMinute
  split <;> omega

theorem micro_lt (t : Instant) : t.nanoOfSecond / 1000 < 10 ^ 6 := by
  have := t.nano_lt
  unfold nanoOfSecond
  split <;> omega

theorem year_lt (h : t.Storable) : t.date.year.toNat < 10 ^ 4 := by
  have hle := h.year_le
  omega

theorem compare_field {width n m : Nat} (hwidth : 0 < width) (hn : n < 10 ^ width)
    (hm : m < 10 ^ width) (c : Char) (s s' : List Char) :
    compare (writePadded width n ++ c :: s) (writePadded width m ++ c :: s') =
      (compare n m).then (compare s s') := by
  have hlength : (writePadded width n).length = (writePadded width m).length := by
    rw [length_writePadded hwidth hn, length_writePadded hwidth hm]
  have hself : compare c c = .eq := Std.ReflCmp.compare_self
  rw [compare_append hlength, compare_writePadded hwidth hn hm, List.compare_cons_cons, hself,
    Ordering.eq_then]

theorem compare_congr {a b c d : Nat} (hlt : a < b ↔ c < d) (hgt : b < a ↔ d < c) :
    compare a b = compare c d := by
  rcases Nat.lt_trichotomy a b with h | h | h
  · rw [Nat.compare_eq_lt.mpr h, Nat.compare_eq_lt.mpr (hlt.mp h)]
  · have hcd : c = d := by omega
    rw [Nat.compare_eq_eq.mpr h, Nat.compare_eq_eq.mpr hcd]
  · rw [Nat.compare_eq_gt.mpr h, Nat.compare_eq_gt.mpr (hgt.mp h)]

theorem compare_pair {base a b c d : Nat} (hb : b < base) (hd : d < base) :
    (compare a c).then (compare b d) = compare (a * base + b) (c * base + d) := by
  have hpos : 0 < base := Nat.lt_of_le_of_lt (Nat.zero_le _) hb
  rw [compare_digits (a * base + b) (c * base + d) hpos, Nat.mul_add_mod_of_lt hb,
    Nat.mul_add_mod_of_lt hd, Nat.mul_comm a, Nat.mul_comm c, Nat.mul_add_div hpos,
    Nat.mul_add_div hpos, Nat.div_eq_of_lt hb, Nat.div_eq_of_lt hd, Nat.add_zero, Nat.add_zero]

theorem compare_lastPlaces (ht : t.Storable) (hu : u.Storable) :
    (compare t.secondOfMinute u.secondOfMinute).then
        (compare (t.nanoOfSecond / 1000) (u.nanoOfSecond / 1000)) =
      (compare (t.second % 60) (u.second % 60)).then (compare t.nano u.nano) := by
  rw [compare_pair t.micro_lt u.micro_lt, compare_pair t.nano_lt u.nano_lt]
  have htm := ht.micros
  have hum := hu.micros
  have htn := t.nano_lt
  have hun := u.nano_lt
  have htl := t.leap_last
  have hul := u.leap_last
  apply compare_congr <;> unfold secondOfMinute nanoOfSecond <;> split <;> split <;> omega

theorem compare_clock (ht : t.Storable) (hu : u.Storable) :
    (compare (t.second / 3600) (u.second / 3600)).then
        ((compare (t.second / 60 % 60) (u.second / 60 % 60)).then
          ((compare t.secondOfMinute u.secondOfMinute).then
            (compare (t.nanoOfSecond / 1000) (u.nanoOfSecond / 1000)))) =
      (compare t.second u.second).then (compare t.nano u.nano) := by
  have hbase : 0 < 60 := by decide
  have hminutes := compare_digits t.second u.second hbase
  have hhours := compare_digits (t.second / 60) (u.second / 60) hbase
  rw [Nat.div_div_eq_div_mul, Nat.div_div_eq_div_mul] at hhours
  rw [compare_lastPlaces ht hu, hminutes, hhours, Ordering.then_assoc, Ordering.then_assoc]

theorem compare_year (ht : t.Storable) (hu : u.Storable) :
    compare t.date.year.toNat u.date.year.toNat = compare t.date.year u.date.year := by
  have hty := ht.year_nonneg
  have huy := hu.year_nonneg
  rcases Int.lt_trichotomy t.date.year u.date.year with h | h | h
  · rw [Std.compare_eq_lt.mpr h, Nat.compare_eq_lt.mpr (by omega)]
  · rw [h, Nat.compare_eq_eq.mpr rfl, Std.compare_eq_iff_eq.mpr rfl]
  · rw [Std.compare_eq_gt.mpr h, Nat.compare_eq_gt.mpr (by omega)]

theorem compare_stamp (ht : t.Storable) (hu : u.Storable) (mark zone : Char) :
    compare (stamp mark zone t) (stamp mark zone u) = compare t u := by
  have hend : compare [zone] [zone] = .eq := Std.ReflCmp.compare_self
  have hlast : (writePadded 6 (t.nanoOfSecond / 1000)).length =
      (writePadded 6 (u.nanoOfSecond / 1000)).length := by
    rw [length_writePadded (by decide) t.micro_lt, length_writePadded (by decide) u.micro_lt]
  unfold stamp
  rw [compare_field (by decide) (year_lt ht) (year_lt hu),
    compare_field (by decide) t.month_lt u.month_lt, compare_field (by decide) t.day_lt u.day_lt,
    compare_field (by decide) t.hour_lt u.hour_lt,
    compare_field (by decide) t.minute_lt u.minute_lt,
    compare_field (by decide) t.secondOfMinute_lt u.secondOfMinute_lt, compare_append hlast, hend,
    Ordering.then_eq, compare_writePadded (by decide) t.micro_lt u.micro_lt, compare_clock ht hu,
    compare_year ht hu]
  rfl

theorem compare_stored (ht : t.Storable) (hu : u.Storable) :
    compare t.stored u.stored = compare t u := by
  rw [compare_toList, stored_toList ht, stored_toList hu, compare_stamp ht hu]

theorem forall_mem_write {P : Char → Prop} {fraction : Nat → List Char}
    (hdigit : ∀ c, c.isDigit = true → P c) (hmark : ∀ c ∈ ['-', '+', ':', '.', 'T', 'Z'], P c)
    (hfraction : ∀ c ∈ fraction t.nanoOfSecond, P c) : ∀ c ∈ t.write fraction, P c := by
  have hplaces : ∀ width n, ∀ c ∈ writePadded width n, P c :=
    fun _ _ c hc => hdigit c (isDigit_of_mem_writePadded hc)
  simp only [List.forall_mem_cons] at hmark
  obtain ⟨hminus, hplus, hcolon, -, hclock, hzone, -⟩ := hmark
  have hyear : ∀ c ∈ writeYear t.date.year, P c := by
    unfold writeYear
    split
    · exact hplaces 4 _
    · refine List.forall_mem_cons.mpr ⟨?_, hplaces 4 _⟩
      split
      · exact hminus
      · exact hplus
  have hdate : ∀ c ∈ writeDate t.date, P c := by
    simp only [writeDate, List.forall_mem_append, List.forall_mem_cons]
    exact ⟨⟨hyear, hminus, hplaces 2 _⟩, hminus, hplaces 2 _⟩
  have hplace : ∀ c ∈ t.writeClock, P c := by
    simp only [writeClock, List.forall_mem_append, List.forall_mem_cons]
    exact ⟨⟨hplaces 2 _, hcolon, hplaces 2 _⟩, hcolon, hplaces 2 _⟩
  simp only [write, List.forall_mem_append, List.forall_mem_cons]
  exact ⟨⟨⟨hdate, hclock, hplace⟩, hfraction⟩, hzone, List.forall_mem_nil P⟩

theorem not_mem_stored {c : Char} (hdigit : c.isDigit = false)
    (hmark : c ∉ ['-', '+', ':', '.', 'T', 'Z']) : c ∉ t.stored.toList := by
  have hdigits : ∀ d, d.isDigit = true → d ≠ c := by
    rintro d hd rfl
    rw [hd] at hdigit
    cases hdigit
  have hmarks : ∀ d ∈ ['-', '+', ':', '.', 'T', 'Z'], d ≠ c := by
    rintro d hd rfl
    exact hmark hd
  have hfraction : ∀ d ∈ microFraction t.nanoOfSecond, d ≠ c :=
    List.forall_mem_cons.mpr ⟨hmarks '.' (by decide),
      fun d hd => hdigits d (isDigit_of_mem_writePadded hd)⟩
  rw [stored, String.toList_ofList]
  exact fun hmem => forall_mem_write hdigits hmarks hfraction c hmem rfl

theorem toLower_digits (width n : Nat) :
    (writePadded width n).map Char.toLower = writePadded width n := by
  have hdigit : ∀ c ∈ writePadded width n, c.toLower = c := by
    intro c hc
    have hd := isDigit_of_mem_writePadded hc
    refine toLower_of_not_isUpper (Bool.eq_false_iff.mpr fun hupper => ?_)
    simp only [Char.isDigit, decide_eq_true_eq, Bool.and_eq_true, UInt32.le_iff_toNat_le,
      ge_iff_le] at hd
    exact absurd (Nat.le_trans (isUpper_iff.mp hupper).1 hd.2) (by decide)
  exact (List.map_congr_left hdigit).trans (List.map_id' _)

theorem lowerAscii_stored (ht : t.Storable) :
    t.stored.toList.map Char.toLower = stamp 't' 'z' t := by
  rw [stored_toList ht]
  simp only [stamp, List.map_append, List.map_cons, toLower_digits, List.map_nil]
  rfl

end Instant

end RecordQuery.Time
