import RecordQuery.Proofs.Bounds.Text
import RecordQuery.Proofs.Time.Reading

namespace RecordQuery

open RecordQuery.Text RecordQuery.Time

theorem isPlain_writePadded {width n : Nat} : ∀ c ∈ writePadded width n, IsPlain c :=
  fun _ hc => isPlain_of_isDigit (isDigit_of_mem_writePadded hc)

theorem isPlain_shortFraction (nanos : Nat) : ∀ c ∈ Instant.shortFraction nanos, IsPlain c := by
  unfold Instant.shortFraction
  split
  · exact nofun
  · split
    · exact List.forall_mem_cons.mpr ⟨⟨rfl, by decide⟩, isPlain_writePadded⟩
    · split <;> exact List.forall_mem_cons.mpr ⟨⟨rfl, by decide⟩, isPlain_writePadded⟩

theorem isPlain_instant (t : Instant) : ∀ c ∈ BoundText.write t, IsPlain c := by
  refine Instant.forall_mem_write (fun _ => isPlain_of_isDigit) ?_ (isPlain_shortFraction _)
  simp only [List.forall_mem_cons]
  exact ⟨⟨rfl, by decide⟩, ⟨rfl, by decide⟩, ⟨rfl, by decide⟩, ⟨rfl, by decide⟩, ⟨rfl, by decide⟩,
    ⟨rfl, by decide⟩, List.forall_mem_nil _⟩

theorem write_instant_ne_nil (t : Instant) : BoundText.write t ≠ [] := by
  change t.write Instant.shortFraction ≠ []
  simp [Instant.write]

theorem legible_instant {t : Instant} (hleast : 0 ≤ t.date.year) (hmost : t.date.year ≤ 9999) :
    Legible t := by
  refine ⟨write_instant_ne_nil t, isPlain_instant t, ?_⟩
  have hread : readStrict (BoundText.write t) = .ok t := Instant.readStrict_write hleast hmost
  simp only [BoundText.read, hread]

theorem unread_instant {t : Instant} (h : ¬(0 ≤ t.date.year ∧ t.date.year ≤ 9999)) :
    ∃ fault, BoundText.read (α := Instant) (BoundText.write t) = .error fault := by
  obtain ⟨sign, hsign, hyear⟩ := writeYear_signed h
  obtain ⟨s, hs⟩ : ∃ s, BoundText.write t = sign :: s := by
    change ∃ s, t.write Instant.shortFraction = sign :: s
    rw [Instant.write, writeDate, hyear]
    exact ⟨_, rfl⟩
  obtain ⟨fault, hfault⟩ := Instant.readStrict_signed hsign s
  exact ⟨.time fault, by simp only [BoundText.read, hs, hfault]⟩

namespace Bounds

variable {r : Bounds Instant}

theorem mem_points {t : Instant} :
    t ∈ r.points ↔ some t ∈ [r.start, r.stop, r.least, r.most] := by
  simp [points]

theorem year_of_readOptionalBound {item : List Char} {t : Instant}
    (h : readOptionalBound item = .ok (some t)) :
    0 ≤ t.date.year ∧ t.date.year ≤ 9999 ∨ t.date.OnEdge := by
  rcases readOptionalBound_eq_ok.mp h with ⟨-, hnone⟩ | ⟨-, a, ha, hread⟩
  · cases hnone
  · obtain rfl := Option.some.inj ha
    refine Instant.year_of_readStrict (s := trim item) ?_
    cases hstrict : readStrict (trim item) with
    | ok u => simpa [BoundText.read, hstrict] using hread
    | error fault => simp [BoundText.read, hstrict] at hread

theorem year_of_read {s : String} (h : read s = .ok r) {t : Instant} (ht : t ∈ r.points) :
    0 ≤ t.date.year ∧ t.date.year ≤ 9999 ∨ t.date.OnEdge := by
  obtain ⟨a, b, c, d, -, hstart, hstop, hleast, hmost⟩ := read_eq_ok_iff.mp h
  simp only [mem_points, List.mem_cons, List.not_mem_nil, or_false] at ht
  rcases ht with ht | ht | ht | ht
  · exact year_of_readOptionalBound (ht ▸ hstart)
  · exact year_of_readOptionalBound (ht ▸ hstop)
  · exact year_of_readOptionalBound (ht ▸ hleast)
  · exact year_of_readOptionalBound (ht ▸ hmost)

theorem unread_display {t : Instant} (ht : t ∈ r.points)
    (h : ¬(0 ≤ t.date.year ∧ t.date.year ≤ 9999)) :
    ∃ e, read (α := Instant) r.display = .error e := by
  cases hread : read (α := Instant) r.display with
  | error e => exact ⟨e, rfl⟩
  | ok r' =>
      obtain ⟨-, hitems⟩ := exists_read_iff.mp ⟨r', hread⟩
      rw [splitOn_display fun t _ => isPlain_instant t] at hitems
      obtain ⟨b, hb⟩ := hitems _ (List.mem_map_of_mem (mem_points.mp ht))
      obtain ⟨fault, hfault⟩ := unread_instant h
      have htrim : trim (BoundText.write t) = BoundText.write t :=
        trim_eq_self fun c hc => (isPlain_instant t c hc).1
      rcases readOptionalBound_eq_ok.mp hb with ⟨hnil, -⟩ | ⟨-, a, -, ha⟩
      · exact absurd hnil (write_instant_ne_nil t)
      · rw [writeOptionalBound, htrim, hfault] at ha
        cases ha

theorem times_read_back {s : String} {r : Bounds Instant} (h : read s = .ok r) :
    (∀ t ∈ r.points, 0 ≤ t.date.year ∧ t.date.year ≤ 9999) ∧ read r.display = .ok r ∨
      (∃ t ∈ r.points, t.date.OnEdge) ∧ ∃ e, read (α := Instant) r.display = .error e := by
  by_cases hyears : ∀ t ∈ r.points, 0 ≤ t.date.year ∧ t.date.year ≤ 9999
  · exact .inl ⟨hyears, read_display fun t ht => legible_instant (hyears t ht).1 (hyears t ht).2⟩
  · obtain ⟨t, ht, hyear⟩ : ∃ t ∈ r.points, ¬(0 ≤ t.date.year ∧ t.date.year ≤ 9999) := by
      simpa only [not_forall, exists_prop] using hyears
    exact .inr ⟨⟨t, ht, (year_of_read h ht).resolve_left hyear⟩, unread_display ht hyear⟩

def movedLeap : Instant := (Instant.read? "2016-12-31T23:59:60.123456789-05:00").getD .epoch

theorem times_read_back_leap :
    read (α := Instant) "2016-12-31T23:59:60.1234567899999\u221205:00;;;" =
        .ok ⟨some movedLeap, none, none, none⟩ ∧
      (⟨some movedLeap, none, none, none⟩ : Bounds Instant).display =
        "2017-01-01T04:59:60.123456789Z;;;" ∧
      read "2017-01-01T04:59:60.123456789Z;;;" =
        .ok (⟨some movedLeap, none, none, none⟩ : Bounds Instant) := by
  have hread : read (α := Instant) "2016-12-31T23:59:60.1234567899999\u221205:00;;;" =
      .ok ⟨some movedLeap, none, none, none⟩ := by decide +kernel
  have hdisplay : (⟨some movedLeap, none, none, none⟩ : Bounds Instant).display =
      "2017-01-01T04:59:60.123456789Z;;;" := by decide +kernel
  rcases times_read_back hread with ⟨-, hback⟩ | ⟨⟨t, ht, hedge⟩, -⟩
  · exact ⟨hread, hdisplay, hdisplay ▸ hback⟩
  · obtain rfl := List.mem_singleton.mp ht
    exact absurd hedge (by decide +kernel)

theorem times_unread :
    ∃ r : Bounds Instant, read "9999-12-31T23:00:00-01:00;;;" = .ok r ∧
      r.display = "+10000-01-01T00:00:00Z;;;" ∧
      read (α := Instant) r.display =
        .error (.invalidBound "+10000-01-01T00:00:00Z" (.time .invalid)) :=
  ⟨⟨some ⟨⟨10000, 1, 1, by decide, by decide, by decide, by decide⟩, 0, 0, by decide, by decide,
    by decide⟩, none, none, none⟩, by decide +kernel, by decide +kernel, by decide +kernel⟩

end Bounds

end RecordQuery
