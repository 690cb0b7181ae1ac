import RecordQuery.Proofs.Bounds
import RecordQuery.Value

namespace RecordQuery

open RecordQuery.Time

namespace Value

variable {u v : Value}

theorem compare?_of_asInt {n m : Int64} (hu : u.asInt = some n) (hv : v.asInt = some m) :
    u.compare? v = some (compare n m) := by
  cases u <;> cases v <;> simp_all [asInt, compare?]

theorem compare?_null_left (v : Value) : null.compare? v = none := by
  cases v <;> rfl

theorem compare?_null_right (v : Value) : v.compare? null = none := by
  cases v <;> rfl

theorem sortCompare_of_compare? {o : Ordering} (h : u.compare? v = some o) :
    u.sortCompare v = o := by
  rw [sortCompare, h]
  rfl

theorem sortCompare_null_left (h : v ≠ null) : null.sortCompare v = .lt := by
  cases v with
  | null => exact absurd rfl h
  | bool b => rfl
  | int n => rfl
  | text s => rfl
  | time t => rfl

theorem sortCompare_null_right (h : v ≠ null) : v.sortCompare null = .gt := by
  cases v with
  | null => exact absurd rfl h
  | bool b => rfl
  | int n => rfl
  | text s => rfl
  | time t => rfl

end Value

inductive Family where
  | numbers
  | texts
  | times

namespace Family

def holds : Family → Value → Bool
  | _, .null => true
  | numbers, .bool _ => true
  | numbers, .int _ => true
  | texts, .text _ => true
  | times, .time _ => true
  | _, _ => false

def compare : Family → Value → Value → Ordering
  | numbers => compareOn Value.asInt
  | texts => compareOn Value.asText
  | times => compareOn Value.asTime

theorem transCmp_compare {α : Type} (f : Family) (value : α → Value) :
    Std.TransCmp fun a b => f.compare (value a) (value b) := by
  cases f with
  | numbers => exact inferInstanceAs (Std.TransCmp (compareOn fun a => (value a).asInt))
  | texts => exact inferInstanceAs (Std.TransCmp (compareOn fun a => (value a).asText))
  | times => exact inferInstanceAs (Std.TransCmp (compareOn fun a => (value a).asTime))

instance (f : Family) : Std.TransCmp f.compare := f.transCmp_compare id

end Family

inductive Value.Below : Value → Value → Prop where
  | null {v : Value} : v ≠ .null → Below .null v
  | number {u v : Value} {m n : Int64} :
      u.asInt = some m → v.asInt = some n → m < n → Below u v
  | text {s t : String} : s < t → Below (.text s) (.text t)
  | time {a b : Instant} : compare a b = .lt → Below (.time a) (.time b)

theorem Value.not_below_null (v : Value) : ¬v.Below .null := by
  intro h
  cases h with
  | null hne => exact hne rfl
  | number _ hn _ => cases hn

namespace Value

variable {u v : Value}

theorem sortCompare_eq_compareOn {α : Type} [Ord α] [Std.ReflOrd α] {key : Value → Option α}
    (hnull : key null = none) (hu : u = null ∨ ∃ a, key u = some a)
    (hv : v = null ∨ ∃ b, key v = some b)
    (hkeys : ∀ a b, key u = some a → key v = some b →
      u.compare? v = some (compare a b) ∧ (compare a b = .lt ↔ u.Below v)) :
    u.sortCompare v = compareOn key u v ∧ (compareOn key u v = .lt ↔ u.Below v) := by
  have hne : ∀ {w a}, key w = some a → w ≠ null := by
    rintro w a hw rfl
    rw [hnull] at hw
    cases hw
  rcases hu with rfl | ⟨a, ha⟩
  · rcases hv with rfl | ⟨b, hb⟩
    · have heq : compareOn key null null = .eq := by
        rw [compareOn, hnull]
        rfl
      rw [heq]
      exact ⟨rfl, iff_of_false (by simp) (not_below_null null)⟩
    · have hlt : compareOn key null v = .lt := by
        rw [compareOn, hnull, hb]
        rfl
      rw [hlt, sortCompare_null_left (hne hb)]
      exact ⟨rfl, iff_of_true rfl (.null (hne hb))⟩
  · rcases hv with rfl | ⟨b, hb⟩
    · have hgt : compareOn key u null = .gt := by
        rw [compareOn, hnull, ha]
        rfl
      rw [hgt, sortCompare_null_right (hne ha)]
      exact ⟨rfl, iff_of_false (by simp) (not_below_null u)⟩
    · obtain ⟨hcompare, hbelow⟩ := hkeys a b ha hb
      have hsome : compareOn key u v = compare a b := by
        rw [compareOn, ha, hb]
        rfl
      rw [hsome, sortCompare_of_compare? hcompare]
      exact ⟨rfl, hbelow⟩

theorem below_iff_of_asInt {m n : Int64} (hm : u.asInt = some m) (hn : v.asInt = some n) :
    u.Below v ↔ m < n := by
  refine ⟨?_, .number hm hn⟩
  intro h
  cases h with
  | null _ => cases hm
  | number hm' hn' hlt =>
      obtain rfl := Option.some.inj (hm.symm.trans hm')
      obtain rfl := Option.some.inj (hn.symm.trans hn')
      exact hlt
  | text _ => cases hm
  | time _ => cases hm

theorem below_text_iff {s t : String} : (text s).Below (text t) ↔ s < t := by
  refine ⟨?_, .text⟩
  intro h
  cases h with
  | number hm _ _ => cases hm
  | text hlt => exact hlt

theorem below_time_iff {a b : Instant} : (time a).Below (time b) ↔ compare a b = .lt := by
  refine ⟨?_, .time⟩
  intro h
  cases h with
  | number hm _ _ => cases hm
  | time hlt => exact hlt

end Value

namespace Family

variable {u v : Value}

theorem holds_numbers (h : numbers.holds v = true) : v = .null ∨ ∃ n, v.asInt = some n := by
  cases v with
  | null => exact .inl rfl
  | bool b => exact .inr ⟨_, rfl⟩
  | int n => exact .inr ⟨_, rfl⟩
  | text _ => cases h
  | time _ => cases h

theorem holds_texts (h : texts.holds v = true) : v = .null ∨ ∃ s, v = .text s := by
  cases v with
  | null => exact .inl rfl
  | text s => exact .inr ⟨s, rfl⟩
  | bool _ => cases h
  | int _ => cases h
  | time _ => cases h

theorem holds_times (h : times.holds v = true) : v = .null ∨ ∃ t, v = .time t := by
  cases v with
  | null => exact .inl rfl
  | time t => exact .inr ⟨t, rfl⟩
  | bool _ => cases h
  | int _ => cases h
  | text _ => cases h

theorem sortCompare_eq (f : Family) (hu : f.holds u = true) (hv : f.holds v = true) :
    u.sortCompare v = f.compare u v ∧ (f.compare u v = .lt ↔ u.Below v) := by
  cases f with
  | numbers =>
      refine Value.sortCompare_eq_compareOn rfl (holds_numbers hu) (holds_numbers hv) ?_
      intro m n hm hn
      exact ⟨Value.compare?_of_asInt hm hn,
        Std.compare_eq_lt.trans (Value.below_iff_of_asInt hm hn).symm⟩
  | texts =>
      refine Value.sortCompare_eq_compareOn rfl ((holds_texts hu).imp_right ?_)
        ((holds_texts hv).imp_right ?_) ?_
      · rintro ⟨s, rfl⟩
        exact ⟨s, rfl⟩
      · rintro ⟨s, rfl⟩
        exact ⟨s, rfl⟩
      · intro s t hs ht
        obtain rfl | ⟨s', rfl⟩ := holds_texts hu
        · cases hs
        obtain rfl | ⟨t', rfl⟩ := holds_texts hv
        · cases ht
        obtain rfl := Option.some.inj hs
        obtain rfl := Option.some.inj ht
        exact ⟨rfl, compareOfLessAndEq_eq_lt.trans Value.below_text_iff.symm⟩
  | times =>
      refine Value.sortCompare_eq_compareOn rfl ((holds_times hu).imp_right ?_)
        ((holds_times hv).imp_right ?_) ?_
      · rintro ⟨t, rfl⟩
        exact ⟨t, rfl⟩
      · rintro ⟨t, rfl⟩
        exact ⟨t, rfl⟩
      · intro a b ha hb
        obtain rfl | ⟨a', rfl⟩ := holds_times hu
        · cases ha
        obtain rfl | ⟨b', rfl⟩ := holds_times hv
        · cases hb
        obtain rfl := Option.some.inj ha
        obtain rfl := Option.some.inj hb
        exact ⟨rfl, Value.below_time_iff.symm⟩

end Family

end RecordQuery
