import Mathlib.Data.List.TakeWhile
import RecordQuery.Proofs.Data.Except
import RecordQuery.Proofs.Text.Numeral
import RecordQuery.Proofs.Time.Calendar
import RecordQuery.Proofs.Time.StoredOrder
import RecordQuery.Time.Reader

namespace RecordQuery.Time

open RecordQuery.Text

theorem byteLength_cons (c : Char) (s : List Char) :
    byteLength (c :: s) = c.utf8Size + byteLength s := by
  simp only [byteLength, String.utf8ByteSize, String.toByteArray_ofList]
  rw [List.utf8Encode_cons, ByteArray.size_append, List.utf8Encode_singleton,
    List.size_toByteArray, String.length_utf8EncodeChar]

theorem length_le_byteLength (s : List Char) : s.length ≤ byteLength s := by
  induction s with
  | nil => exact Nat.zero_le _
  | cons c s ih =>
      have hc := c.utf8Size_pos
      rw [byteLength_cons, List.length_cons]
      omega

theorem fixedDigits_append {digits : List Char} (h : ∀ c ∈ digits, c.isDigit = true) (acc : Nat)
    (rest : List Char) :
    fixedDigits digits.length acc (digits ++ rest) =
      .ok (Nat.ofDigitChars 10 digits acc, rest) := by
  induction digits generalizing acc with
  | nil => rfl
  | cons c digits ih =>
      obtain ⟨hc, hdigits⟩ := List.forall_mem_cons.mp h
      rw [List.length_cons, List.cons_append, fixedDigits, if_pos hc, ih hdigits,
        Nat.ofDigitChars_cons]
      rfl

theorem fixedDigits_lt {n acc value : Nat} {s rest : List Char}
    (h : fixedDigits n acc s = .ok (value, rest)) : value < (acc + 1) * 10 ^ n := by
  induction n generalizing acc s with
  | zero =>
      obtain ⟨rfl, -⟩ := Prod.mk.inj (Except.ok.inj h)
      omega
  | succ n ih =>
      cases s with
      | nil => cases h
      | cons c s =>
          rw [fixedDigits] at h
          split at h
          · rename_i hc
            have hdigit := digitValue_lt hc
            refine Nat.lt_of_lt_of_le (ih h) ?_
            rw [Nat.pow_succ', ← Nat.mul_assoc]
            exact Nat.mul_le_mul_right _ (by omega)
          · cases h

theorem ofDigits_writePadded (width n : Nat) : ofDigits (writePadded width n) = n := by
  rw [ofDigits, writePadded, padLeft, Nat.ofDigitChars_append, Nat.ofDigitChars_replicate_zero,
    Nat.mul_zero]
  exact Nat.ofDigitChars_ten_toDigits

theorem fixedDigits_writePadded {width n : Nat} (hwidth : 0 < width) (hn : n < 10 ^ width)
    (rest : List Char) : fixedDigits width 0 (writePadded width n ++ rest) = .ok (n, rest) := by
  have h : fixedDigits (writePadded width n).length 0 (writePadded width n ++ rest) =
      .ok (ofDigits (writePadded width n), rest) :=
    fixedDigits_append (fun _ => isDigit_of_mem_writePadded) 0 rest
  rwa [length_writePadded hwidth hn, ofDigits_writePadded] at h

theorem fraction_writePadded {width n : Nat} (hwidth : 0 < width) (hnine : width ≤ 9)
    (hn : n < 10 ^ width) {c : Char} (hc : c.isDigit = false) (rest : List Char) :
    fraction ('.' :: (writePadded width n ++ c :: rest)) =
      .ok (n * 10 ^ (9 - width), c :: rest) := by
  have hdigits : ∀ d ∈ writePadded width n, d.isDigit = true := fun _ => isDigit_of_mem_writePadded
  have hlength := length_writePadded hwidth hn
  have hvalue : nanosOf (writePadded width n) = n * 10 ^ (9 - width) := by
    rw [nanosOf, List.take_of_length_le (by omega), ofDigits_writePadded, hlength]
    rfl
  cases hs : writePadded width n with
  | nil =>
      rw [hs] at hlength
      exact absurd hlength.symm (Nat.ne_of_gt hwidth)
  | cons d ds =>
      have htake : (d :: (ds ++ c :: rest)).takeWhile Char.isDigit = d :: ds := by
        rw [← List.cons_append, ← hs, List.takeWhile_append_of_pos hdigits]
        simp [hc]
      have hdrop : (d :: (ds ++ c :: rest)).dropWhile Char.isDigit = c :: rest := by
        rw [← List.cons_append, ← hs, List.dropWhile_append_of_pos hdigits]
        simp [hc]
      have hd : d.isDigit = true := hdigits d (by simp [hs])
      rw [List.cons_append, fraction, if_pos hd, htake, hdrop, ← hs, hvalue]

theorem isEmpty_writePadded {width n : Nat} (hwidth : 0 < width) :
    (writePadded width n).isEmpty = false := by
  rw [List.isEmpty_eq_false_iff]
  intro hnil
  have hlength := congrArg List.length hnil
  rw [writePadded, length_padLeft, List.length_nil] at hlength
  omega

theorem looseYear_signed {sign : Char} (hsign : sign = '-' ∨ sign = '+') (year : Nat)
    (rest : List Char) :
    ∃ n, looseYear (sign :: (writePadded 4 year ++ '-' :: rest)) = .ok (n, '-' :: rest) := by
  have hdigits : ∀ c ∈ writePadded 4 year, c.isDigit = true := fun _ => isDigit_of_mem_writePadded
  have htake : (writePadded 4 year ++ '-' :: rest).takeWhile Char.isDigit = writePadded 4 year := by
    rw [List.takeWhile_append_of_pos hdigits]
    exact List.append_nil _
  have hgiven : (writePadded 4 year).isEmpty = false := isEmpty_writePadded (by decide)
  have htrim : trimStart (sign :: (writePadded 4 year ++ '-' :: rest)) =
      sign :: (writePadded 4 year ++ '-' :: rest) := by
    rcases hsign with rfl | rfl <;> rfl
  rcases hsign with rfl | rfl
  · refine ⟨-(year : Int), ?_⟩
    simp only [looseYear, htrim, htake, hgiven, Bool.false_eq_true, if_false, List.drop_left,
      ofDigits_writePadded]
  · refine ⟨(year : Int), ?_⟩
    simp only [looseYear, htrim, htake, hgiven, Bool.false_eq_true, if_false, List.drop_left,
      ofDigits_writePadded]

theorem looseNumber_writePadded {n : Nat} (hn : n < 10 ^ 2) (rest : List Char) :
    looseNumber 2 (writePadded 2 n ++ rest) = .ok (n, rest) := by
  have hlength : (writePadded 2 n).length = 2 := length_writePadded (by decide) hn
  have hdigits : ∀ c ∈ writePadded 2 n, c.isDigit = true := fun _ => isDigit_of_mem_writePadded
  have hgiven : (writePadded 2 n).isEmpty = false := isEmpty_writePadded (by decide)
  have htrim : trimStart (writePadded 2 n ++ rest) = writePadded 2 n ++ rest := by
    cases hs : writePadded 2 n with
    | nil =>
        rw [hs] at hgiven
        cases hgiven
    | cons c digits =>
        have hc : isBlank c = false := not_isBlank_of_isDigit (hdigits c (by simp [hs]))
        rw [List.cons_append, trimStart, List.dropWhile_cons_of_neg (by simp [hc])]
  have htake : ((writePadded 2 n ++ rest).take 2).takeWhile Char.isDigit = writePadded 2 n := by
    rw [List.take_left' hlength]
    exact List.takeWhile_eq_self_iff.mpr hdigits
  simp only [looseNumber, htrim, htake, hgiven, Bool.false_eq_true, if_false, ofDigits_writePadded,
    List.drop_left]

theorem writeYear_signed {year : Int} (h : ¬(0 ≤ year ∧ year ≤ 9999)) :
    ∃ sign, (sign = '-' ∨ sign = '+') ∧ writeYear year = sign :: writePadded 4 year.natAbs := by
  refine ⟨_, ?_, if_neg h⟩
  split
  · exact .inl rfl
  · exact .inr rfl

namespace Instant

variable {t : Instant}

theorem eq_of_parts {t u : Instant} (hdate : t.date = u.date) (hsecond : t.second = u.second)
    (hnano : t.nano = u.nano) : t = u := by
  cases t
  cases u
  cases hdate
  cases hsecond
  cases hnano
  rfl

theorem clock_eq (second : Nat) :
    second / 3600 * 3600 + second / 60 % 60 * 60 + second % 60 = second := by
  omega

theorem instantOf_clock (t : Instant) :
    instantOf t.date (t.second / 3600) (t.second / 60 % 60) t.secondOfMinute t.nanoOfSecond =
      .ok t := by
  have hsecond := t.second_lt
  have hnano := t.nano_lt
  by_cases hn : 1000000000 ≤ t.nano
  · have hlast := t.leap_last hn
    have hminute : t.secondOfMinute = 60 := by rw [secondOfMinute, if_pos hn, hlast]
    have hrest : t.nanoOfSecond = t.nano - 1000000000 := by rw [nanoOfSecond, if_pos hn]
    have hbounds : t.second / 3600 ≤ 23 ∧ t.second / 60 % 60 ≤ 59 ∧ 60 ≤ 60 ∧
        t.nano - 1000000000 < 1000000000 := by
      omega
    rw [hminute, hrest, instantOf, dif_pos hbounds, dif_pos rfl]
    have hclock := clock_eq t.second
    rw [hlast] at hclock
    exact congrArg Except.ok (eq_of_parts rfl hclock (Nat.add_sub_cancel' hn))
  · have hminute : t.secondOfMinute = t.second % 60 := by rw [secondOfMinute, if_neg hn]
    have hrest : t.nanoOfSecond = t.nano := by rw [nanoOfSecond, if_neg hn]
    have hbounds : t.second / 3600 ≤ 23 ∧ t.second / 60 % 60 ≤ 59 ∧ t.second % 60 ≤ 60 ∧
        t.nano < 1000000000 := by
      omega
    have hne : t.second % 60 ≠ 60 := by omega
    rw [hminute, hrest, instantOf, dif_pos hbounds, dif_neg hne]
    exact congrArg Except.ok (eq_of_parts rfl (clock_eq t.second) rfl)

def writeLead (t : Instant) (s : List Char) : List Char :=
  writePadded 4 t.date.year.toNat ++ '-' :: (writePadded 2 t.date.month ++ '-' ::
    (writePadded 2 t.date.day ++ 'T' :: (writePadded 2 (t.second / 3600) ++ ':' ::
      (writePadded 2 (t.second / 60 % 60) ++ ':' :: (writePadded 2 t.secondOfMinute ++ s)))))

section

variable (hleast : 0 ≤ t.date.year) (hmost : t.date.year ≤ 9999)

include hleast hmost

theorem readStrict_writeLead {s : List Char} (hs : fraction s = .ok (t.nanoOfSecond, ['Z'])) :
    readStrict (writeLead t s) = .ok t := by
  have hyearLt : t.date.year.toNat < 10 ^ 4 := by omega
  have hyear := fixedDigits_writePadded (by decide) hyearLt
  have hmonth := fixedDigits_writePadded (by decide) t.month_lt
  have hday := fixedDigits_writePadded (by decide) t.day_lt
  have hhour := fixedDigits_writePadded (by decide) t.hour_lt
  have hminute := fixedDigits_writePadded (by decide) t.minute_lt
  have hsecond := fixedDigits_writePadded (by decide) t.secondOfMinute_lt
  have hlength : ¬byteLength (writeLead t s) < 19 := by
    refine Nat.not_lt.mpr (Nat.le_trans ?_ (length_le_byteLength _))
    simp only [writeLead, List.length_append, List.length_cons,
      length_writePadded (by decide) hyearLt, length_writePadded (by decide) t.month_lt,
      length_writePadded (by decide) t.day_lt, length_writePadded (by decide) t.hour_lt,
      length_writePadded (by decide) t.minute_lt,
      length_writePadded (by decide) t.secondOfMinute_lt]
    omega
  have hcast : ((t.date.year.toNat : Nat) : Int) = t.date.year := Int.toNat_of_nonneg hleast
  have hyears : inYears t.date.year = true := by
    simp only [inYears, Bool.and_eq_true, decide_eq_true_eq]
    omega
  have huniversal : universal t 0 = .ok t := by
    rw [universal, if_pos (by decide)]
    simp only [minusMinutes_zero, hyears, if_true]
  rw [readStrict, if_neg hlength, writeLead]
  simp only [bind, Except.bind, hyear, literal, if_true, hmonth, hday, hcast, Date.of?_self,
    separator, true_or, hhour, hminute, hsecond, hs, instantOf_clock t, offset,
    List.isEmpty_nil, huniversal]

theorem write_eq_writeLead (fraction : Nat → List Char) :
    t.write fraction = writeLead t (fraction t.nanoOfSecond ++ ['Z']) := by
  have hyear : writeYear t.date.year = writePadded 4 t.date.year.toNat := if_pos ⟨hleast, hmost⟩
  simp [write, writeDate, writeClock, writeLead, hyear]

omit hleast hmost in
theorem nanoOfSecond_lt (t : Instant) : t.nanoOfSecond < 10 ^ 9 := by
  have := t.nano_lt
  unfold nanoOfSecond
  split <;> omega

omit hleast hmost in
theorem fraction_shortFraction {nanos : Nat} (h : nanos < 10 ^ 9) :
    fraction (shortFraction nanos ++ ['Z']) = .ok (nanos, ['Z']) := by
  unfold shortFraction
  split
  · rename_i hzero
    rw [hzero]
    rfl
  · split
    · rw [List.cons_append, fraction_writePadded (by decide) (by decide) (by omega) rfl]
      exact congrArg (fun n => Except.ok (n, ['Z'])) (by omega)
    · split
      · rw [List.cons_append, fraction_writePadded (by decide) (by decide) (by omega) rfl]
        exact congrArg (fun n => Except.ok (n, ['Z'])) (by omega)
      · rw [List.cons_append, fraction_writePadded (by decide) (by decide) h rfl]
        exact congrArg (fun n => Except.ok (n, ['Z'])) (by omega)

theorem readStrict_write : readStrict (t.write shortFraction) = .ok t := by
  rw [write_eq_writeLead hleast hmost]
  exact readStrict_writeLead hleast hmost (fraction_shortFraction t.nanoOfSecond_lt)

end

theorem readStrict_stored (h : t.Storable) : readStrict t.stored.toList = .ok t := by
  have hmicros := h.micros
  have hwhole : t.nanoOfSecond / 1000 * 1000 = t.nanoOfSecond := by
    unfold nanoOfSecond
    split <;> omega
  have hfraction := fraction_writePadded (by decide) (by decide) t.micro_lt (c := 'Z') rfl []
  rw [stored, String.toList_ofList, write_eq_writeLead h.year_nonneg h.year_le, microFraction,
    List.cons_append]
  exact readStrict_writeLead h.year_nonneg h.year_le (hfraction.trans
    (congrArg (fun n => Except.ok (n, ['Z'])) hwhole))

theorem read?_stored (h : t.Storable) : read? t.stored = some t := by
  rw [read?, readStrict_stored h]

def truncated (t : Instant) : Instant :=
  ⟨t.date, t.second, t.nano / 1000 * 1000, t.second_lt, by
    have := t.nano_lt
    omega, fun h => t.leap_last (by omega)⟩

theorem storable_truncated (hleast : 0 ≤ t.date.year) (hmost : t.date.year ≤ 9999) :
    t.truncated.Storable :=
  ⟨hleast, hmost, Nat.mul_mod_left ..⟩

theorem stored_truncated (t : Instant) : t.truncated.stored = t.stored := by
  have hleap : 1000000000 ≤ t.nano / 1000 * 1000 ↔ 1000000000 ≤ t.nano := by omega
  have hsecond : t.truncated.secondOfMinute = t.secondOfMinute := by
    simp only [secondOfMinute, truncated, hleap]
  have hmicro : t.truncated.nanoOfSecond / 1000 = t.nanoOfSecond / 1000 := by
    simp only [nanoOfSecond, truncated, hleap]
    split <;> omega
  simp only [stored, write, writeClock, microFraction, hsecond, hmicro]
  rfl

theorem readStrict_signed {sign : Char} (hsign : sign = '-' ∨ sign = '+') (s : List Char) :
    ∃ fault, readStrict (sign :: s) = .error fault := by
  have hdigits : fixedDigits 4 0 (sign :: s) = .error .invalid := by
    rcases hsign with rfl | rfl <;> rfl
  unfold readStrict
  split
  · exact ⟨_, rfl⟩
  · rw [hdigits]
    exact ⟨_, rfl⟩

theorem readPlain_signed {sign : Char} (hsign : sign = '-' ∨ sign = '+') (year : Nat)
    {month day : Nat} (hmonth : month < 10 ^ 2) (hday : day < 10 ^ 2) (rest : List Char) :
    readPlain (sign :: (writePadded 4 year ++ '-' :: (writePadded 2 month ++ '-' ::
      (writePadded 2 day ++ 'T' :: rest)))) = .error .invalid := by
  obtain ⟨n, hyear⟩ := looseYear_signed hsign year (writePadded 2 month ++ '-' ::
    (writePadded 2 day ++ 'T' :: rest))
  simp only [readPlain, bind, Except.bind, hyear, literal, if_true, looseNumber_writePadded hmonth,
    looseNumber_writePadded hday]
  rfl

theorem read?_signed {sign : Char} (hsign : sign = '-' ∨ sign = '+') (year : Nat) {month day : Nat}
    (hmonth : month < 10 ^ 2) (hday : day < 10 ^ 2) (rest : List Char) :
    read? (String.ofList (sign :: (writePadded 4 year ++ '-' :: (writePadded 2 month ++ '-' ::
      (writePadded 2 day ++ 'T' :: rest))))) = none := by
  obtain ⟨fault, hstrict⟩ := readStrict_signed hsign (writePadded 4 year ++ '-' ::
    (writePadded 2 month ++ '-' :: (writePadded 2 day ++ 'T' :: rest)))
  rw [read?, String.toList_ofList]
  simp only [hstrict, readPlain_signed hsign year hmonth hday]

theorem read?_stored_iff : read? t.stored = some t ↔ t.Storable := by
  refine ⟨fun h => ?_, read?_stored⟩
  have hyears : 0 ≤ t.date.year ∧ t.date.year ≤ 9999 := by
    by_contra hyears
    obtain ⟨sign, hsign, hyear⟩ := writeYear_signed hyears
    have hunread := read?_signed hsign t.date.year.natAbs t.month_lt t.day_lt
      (t.writeClock ++ microFraction t.nanoOfSecond ++ ['Z'])
    have hstored : t.stored.toList = _ := String.toList_ofList
    rw [← String.ofList_toList (s := t.stored), hstored, write, writeDate, hyear] at h
    simp only [List.append_assoc, List.cons_append] at h hunread
    rw [hunread] at h
    cases h
  have hstorable := storable_truncated hyears.1 hyears.2
  have htruncated := read?_stored hstorable
  rw [stored_truncated, h] at htruncated
  rw [Option.some.inj htruncated]
  exact hstorable

theorem stored_keeps_order {t u : Instant} (ht : 0 ≤ t.date.year ∧ t.date.year ≤ 9999)
    (hu : 0 ≤ u.date.year ∧ u.date.year ≤ 9999) :
    read? t.stored = some t.truncated ∧
      compare t.stored u.stored = compare t.truncated u.truncated := by
  have htold := storable_truncated ht.1 ht.2
  have huold := storable_truncated hu.1 hu.2
  rw [← stored_truncated t, ← stored_truncated u]
  exact ⟨read?_stored htold, compare_stored htold huold⟩

def leapEnd : Instant := (read? "2016-12-31T23:59:60.999999999Z").getD .epoch

def leapEve : Instant := (read? "2016-12-31T23:59:59.999999999Z").getD .epoch

theorem stored_keeps_order_leap :
    leapEnd.stored = "2016-12-31T23:59:60.999999Z" ∧
      leapEve.stored = "2016-12-31T23:59:59.999999Z" ∧
      read? leapEnd.stored = some leapEnd.truncated ∧ leapEnd.truncated.nano = 1999999000 ∧
      compare leapEnd.stored leapEve.stored = .gt := by
  obtain ⟨hread, horder⟩ := stored_keeps_order (t := leapEnd) (u := leapEve)
    (by decide +kernel) (by decide +kernel)
  have hlater : compare leapEnd.truncated leapEve.truncated = .gt := by decide +kernel
  exact ⟨by decide +kernel, by decide +kernel, hread, by decide +kernel, horder.trans hlater⟩

theorem year_of_of? {year : Int} {month day : Nat} {d : Date}
    (h : Date.of? year month day = some d) : d.year = year := by
  unfold Date.of? at h
  split at h
  · obtain rfl := Option.some.inj h
    rfl
  · cases h

theorem date_of_instantOf {date : Date} {hour minute second nanos : Nat}
    (h : instantOf date hour minute second nanos = .ok t) : t.date = date := by
  unfold instantOf at h
  split at h
  · split at h <;> obtain rfl := Except.ok.inj h <;> rfl
  · cases h

theorem eq_of_universal {wall : Instant} {minutes : Int} (h : universal wall minutes = .ok t) :
    minutes.natAbs < 1440 ∧ t = wall.minusMinutes minutes := by
  unfold universal at h
  split at h
  · rename_i hminutes
    dsimp only at h
    split at h
    · exact ⟨hminutes, (Except.ok.inj h).symm⟩
    · cases h
  · cases h

theorem exists_wall_of_readStrict {s : List Char} (h : readStrict s = .ok t) :
    ∃ (wall : Instant) (minutes : Int), (0 ≤ wall.date.year ∧ wall.date.year ≤ 9999) ∧
      minutes.natAbs < 1440 ∧ t = wall.minusMinutes minutes := by
  unfold readStrict at h
  split at h
  · cases h
  obtain ⟨⟨year, s⟩, hyear, h⟩ := bind_eq_ok.mp h
  obtain ⟨s, -, h⟩ := bind_eq_ok.mp h
  obtain ⟨⟨month, s⟩, -, h⟩ := bind_eq_ok.mp h
  obtain ⟨s, -, h⟩ := bind_eq_ok.mp h
  obtain ⟨⟨day, s⟩, -, h⟩ := bind_eq_ok.mp h
  dsimp only at h
  split at h
  · cases h
  rename_i date hdate
  obtain ⟨s, -, h⟩ := bind_eq_ok.mp h
  obtain ⟨⟨hour, s⟩, -, h⟩ := bind_eq_ok.mp h
  obtain ⟨s, -, h⟩ := bind_eq_ok.mp h
  obtain ⟨⟨minute, s⟩, -, h⟩ := bind_eq_ok.mp h
  obtain ⟨s, -, h⟩ := bind_eq_ok.mp h
  obtain ⟨⟨second, s⟩, -, h⟩ := bind_eq_ok.mp h
  obtain ⟨⟨nanos, s⟩, -, h⟩ := bind_eq_ok.mp h
  obtain ⟨wall, hwall, h⟩ := bind_eq_ok.mp h
  obtain ⟨⟨minutes, s⟩, -, h⟩ := bind_eq_ok.mp h
  dsimp only at h
  split at h
  · obtain ⟨hminutes, rfl⟩ := eq_of_universal h
    have hlt := fixedDigits_lt hyear
    have hwallYear : wall.date.year = year := by
      rw [date_of_instantOf hwall, year_of_of? hdate]
    exact ⟨wall, minutes, by omega, hminutes, rfl⟩
  · cases h

theorem minusMinutes_edge {wall : Instant} (hleast : 0 ≤ wall.date.year)
    (hmost : wall.date.year ≤ 9999) {minutes : Int} (hminutes : minutes.natAbs < 1440) :
    0 ≤ (wall.minusMinutes minutes).date.year ∧ (wall.minusMinutes minutes).date.year ≤ 9999 ∨
      (wall.minusMinutes minutes).date.OnEdge := by
  have hsecond := wall.second_lt
  exact Date.addDays_edge hleast hmost (by omega) (by omega)

theorem year_of_readStrict {s : List Char} (h : readStrict s = .ok t) :
    0 ≤ t.date.year ∧ t.date.year ≤ 9999 ∨ t.date.OnEdge := by
  obtain ⟨wall, minutes, hyear, hminutes, rfl⟩ := exists_wall_of_readStrict h
  exact minusMinutes_edge hyear.1 hyear.2 hminutes

end Instant

end RecordQuery.Time
