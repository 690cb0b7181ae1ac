import Mathlib.Tactic.Common
import RecordQuery.Bounds
import RecordQuery.Time.Instant

namespace RecordQuery

namespace Time.Instant

instance : Std.TransOrd Instant :=
  inferInstanceAs (Std.TransCmp (compareLex (compareOn fun t : Instant => t.date.year)
    (compareLex (compareOn (·.date.month)) (compareLex (compareOn (·.date.day))
      (compareLex (compareOn (·.second)) (compareOn (·.nano)))))))

end Time.Instant

namespace Bounds

variable {α : Type} [Ord α]

structure Within (r : Bounds α) (a : α) : Prop where
  start : ∀ low, r.start = some low → (compare low a).isLE = true
  least : ∀ low, r.least = some low → (compare low a).isLE = true
  stop : ∀ high, r.stop = some high → (compare a high).isLE = true
  most : ∀ high, r.most = some high → (compare a high).isLE = true

variable [Std.TransOrd α]

theorem larger_isLE {a b c : α} :
    (compare (larger a b) c).isLE = true ↔
      (compare a c).isLE = true ∧ (compare b c).isLE = true := by
  unfold larger
  split
  · rename_i h
    have hba : (compare b a).isLE = true := Ordering.isLE_of_eq_lt (Std.OrientedCmp.gt_iff_lt.mp h)
    exact ⟨fun hac => ⟨hac, Std.TransCmp.isLE_trans hba hac⟩, And.left⟩
  · rename_i h
    have hab : (compare a b).isLE = true := Ordering.ne_gt_iff_isLE.mp h
    exact ⟨fun hbc => ⟨Std.TransCmp.isLE_trans hab hbc, hbc⟩, And.right⟩

theorem isLE_smaller {a b c : α} :
    (compare c (smaller a b)).isLE = true ↔
      (compare c a).isLE = true ∧ (compare c b).isLE = true := by
  unfold smaller
  split
  · rename_i h
    have hba : (compare b a).isLE = true := Ordering.isLE_of_eq_lt (Std.OrientedCmp.gt_iff_lt.mp h)
    exact ⟨fun hcb => ⟨Std.TransCmp.isLE_trans hcb hba, hcb⟩, And.right⟩
  · rename_i h
    have hab : (compare a b).isLE = true := Ordering.ne_gt_iff_isLE.mp h
    exact ⟨fun hca => ⟨hca, Std.TransCmp.isLE_trans hca hab⟩, And.left⟩

theorem within_iff {r : Bounds α} {a : α} :
    r.Within a ↔ (∀ low, r.lower = some low → (compare low a).isLE = true) ∧
      (∀ high, r.upper = some high → (compare a high).isLE = true) := by
  obtain ⟨start, stop, least, most⟩ := r
  have hlower : (∀ low, tighter larger start least = some low → (compare low a).isLE = true) ↔
      (∀ low, start = some low → (compare low a).isLE = true) ∧
        (∀ low, least = some low → (compare low a).isLE = true) := by
    cases start <;> cases least <;> simp [tighter, larger_isLE]
  have hupper : (∀ high, tighter smaller stop most = some high → (compare a high).isLE = true) ↔
      (∀ high, stop = some high → (compare a high).isLE = true) ∧
        (∀ high, most = some high → (compare a high).isLE = true) := by
    cases stop <;> cases most <;> simp [tighter, isLE_smaller]
  simp only [lower, upper, hlower, hupper]
  constructor
  · rintro ⟨hstart, hleast, hstop, hmost⟩
    exact ⟨⟨hstart, hleast⟩, hstop, hmost⟩
  · rintro ⟨⟨hstart, hleast⟩, hstop, hmost⟩
    exact ⟨hstart, hleast, hstop, hmost⟩

end Bounds

end RecordQuery
