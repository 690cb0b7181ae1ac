import Mathlib.Tactic.Common
import Mathlib.Tactic.IntervalCases
import RecordQuery.Text.Numeral

namespace RecordQuery.Text

theorem compare_append {s s' : List Char} (h : s.length = s'.length) (t t' : List Char) :
    compare (s ++ t) (s' ++ t') = (compare s s').then (compare t t') := by
  induction s generalizing s' with
  | nil =>
      cases s' with
      | nil => rfl
      | cons d s' => cases h
  | cons c s ih =>
      cases s' with
      | nil => cases h
      | cons d s' =>
          rw [List.cons_append, List.cons_append, List.compare_cons_cons, List.compare_cons_cons,
            ih (Nat.succ.inj h), Ordering.then_assoc]

theorem compareOfLessAndEq_cons (c d : Char) (s t : List Char) :
    compareOfLessAndEq (c :: s) (d :: t) = (compare c d).then (compareOfLessAndEq s t) := by
  have hcd : compare c d = compareOfLessAndEq c d := rfl
  rw [hcd]
  unfold compareOfLessAndEq
  by_cases hlt : c < d
  · simp [List.cons_lt_cons_iff, hlt]
  · by_cases heq : c = d
    · subst heq
      simp only [List.cons_lt_cons_iff, hlt, true_and, false_or, if_true, if_false,
        Ordering.eq_then, List.cons.injEq]
    · simp [List.cons_lt_cons_iff, hlt, heq]

theorem compare_toList (s t : String) : compare s t = compare s.toList t.toList := by
  have hlists : ∀ a b : List Char, compareOfLessAndEq a b = compare a b := by
    intro a
    induction a with
    | nil =>
        intro b
        cases b with
        | nil => rfl
        | cons d b => rfl
    | cons c a ih =>
        intro b
        cases b with
        | nil => rfl
        | cons d b => rw [compareOfLessAndEq_cons, List.compare_cons_cons, ih]
  rw [← hlists]
  change compareOfLessAndEq s t = _
  unfold compareOfLessAndEq
  simp only [String.lt_iff, String.toList_inj]

theorem compare_digitChar {a b : Nat} (ha : a < 10) (hb : b < 10) :
    compare a.digitChar b.digitChar = compare a b := by
  interval_cases a <;> interval_cases b <;> rfl

theorem compare_digits (n m : Nat) {base : Nat} (hbase : 0 < base) :
    compare n m = (compare (n / base) (m / base)).then (compare (n % base) (m % base)) := by
  have hn := Nat.div_add_mod n base
  have hm := Nat.div_add_mod m base
  have hn' := Nat.mod_lt n hbase
  have hm' := Nat.mod_lt m hbase
  rcases Nat.lt_trichotomy (n / base) (m / base) with hlt | heq | hgt
  · have hnm : n < m := by
      by_contra hnm
      exact absurd (Nat.div_le_div_right (Nat.le_of_not_lt hnm)) (Nat.not_le_of_lt hlt)
    rw [Nat.compare_eq_lt.mpr hlt, Nat.compare_eq_lt.mpr hnm]
    rfl
  · rw [Nat.compare_eq_eq.mpr heq, Ordering.eq_then]
    rw [heq] at hn
    rcases Nat.lt_trichotomy (n % base) (m % base) with h | h | h
    · rw [Nat.compare_eq_lt.mpr h, Nat.compare_eq_lt.mpr (by omega)]
    · rw [Nat.compare_eq_eq.mpr h, Nat.compare_eq_eq.mpr (by omega)]
    · rw [Nat.compare_eq_gt.mpr h, Nat.compare_eq_gt.mpr (by omega)]
  · have hnm : m < n := by
      by_contra hnm
      exact absurd (Nat.div_le_div_right (Nat.le_of_not_lt hnm)) (Nat.not_le_of_lt hgt)
    rw [Nat.compare_eq_gt.mpr hgt, Nat.compare_eq_gt.mpr hnm]
    rfl

theorem writePadded_succ {width : Nat} (hwidth : 0 < width) (n : Nat) :
    writePadded (width + 1) n = writePadded width (n / 10) ++ [(n % 10).digitChar] := by
  unfold writePadded padLeft writeNat
  rcases Nat.lt_or_ge n 10 with hn | hn
  · have hdiv : n / 10 = 0 := Nat.div_eq_of_lt hn
    have hlast : List.replicate width '0' = List.replicate (width - 1) '0' ++ ['0'] := by
      obtain ⟨k, rfl⟩ : ∃ k, width = k + 1 := ⟨width - 1, by omega⟩
      rw [List.replicate_succ', Nat.add_sub_cancel]
    rw [hdiv, Nat.mod_eq_of_lt hn, Nat.toDigits_of_lt_base hn, Nat.toDigits_zero]
    simp [hlast]
  · rw [Nat.toDigits_of_base_le (by decide) hn]
    simp

theorem length_writePadded {width n : Nat} (hwidth : 0 < width) (hn : n < 10 ^ width) :
    (writePadded width n).length = width := by
  have hlength := (Nat.length_toDigits_le_iff (b := 10) (by decide) hwidth).mpr hn
  rw [writePadded, length_padLeft, writeNat]
  omega

theorem isDigit_of_mem_writePadded {width n : Nat} {c : Char} (h : c ∈ writePadded width n) :
    c.isDigit = true := by
  rcases List.mem_append.mp h with h | h
  · rw [List.eq_of_mem_replicate h]
    rfl
  · exact Nat.isDigit_of_mem_toDigits (by decide) (by decide) h

theorem compare_writePadded {width : Nat} (hwidth : 0 < width) :
    ∀ {n m : Nat}, n < 10 ^ width → m < 10 ^ width →
      compare (writePadded width n) (writePadded width m) = compare n m := by
  induction width with
  | zero => cases hwidth
  | succ width ih =>
      intro n m hn hm
      rcases Nat.eq_zero_or_pos width with rfl | hpos
      · have hn' : n < 10 := hn
        have hm' : m < 10 := hm
        simp only [writePadded, padLeft, writeNat, Nat.toDigits_of_lt_base hn',
          Nat.toDigits_of_lt_base hm', List.length_singleton, Nat.sub_self, List.replicate_zero,
          List.nil_append, List.compare_cons_cons, List.compare_nil_nil, Ordering.then_eq]
        exact compare_digitChar hn' hm'
      · have hn' : n / 10 < 10 ^ width := by
          rw [Nat.div_lt_iff_lt_mul (by decide)]
          exact hn
        have hm' : m / 10 < 10 ^ width := by
          rw [Nat.div_lt_iff_lt_mul (by decide)]
          exact hm
        rw [writePadded_succ hpos, writePadded_succ hpos, compare_append, ih hpos hn' hm',
          List.compare_cons_cons, List.compare_nil_nil, Ordering.then_eq,
          compare_digitChar (Nat.mod_lt _ (by decide)) (Nat.mod_lt _ (by decide)),
          ← compare_digits n m (by decide)]
        rw [length_writePadded hpos hn', length_writePadded hpos hm']

end RecordQuery.Text
