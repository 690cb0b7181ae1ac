import Mathlib.Algebra.Group.Nat.Defs
import Mathlib.Tactic.Common
import RecordQuery.Value

namespace RecordQuery.Integer

theorem max_eq_ite (a b : Int64) : max a b = if a ≤ b then b else a := rfl

theorem max_eq_left {a b : Int64} (h : b ≤ a) : max a b = a := by
  rw [max_eq_ite]
  split
  · rename_i hab
    exact Int64.le_antisymm h hab
  · rfl

theorem le_max_left (a b : Int64) : a ≤ max a b := by
  rw [max_eq_ite]
  split
  · assumption
  · exact Int64.le_refl a

theorem le_max_right (a b : Int64) : b ≤ max a b := by
  rw [max_eq_ite]
  split
  · exact Int64.le_refl b
  · rename_i hab
    exact Int64.le_of_lt (Int64.not_le.mp hab)

theorem toInt_succ {a : Int64} (h : a < Int64.maxValue) : (a + 1).toInt = a.toInt + 1 := by
  have hmax : a.toInt < 9223372036854775807 := Int64.lt_iff_toInt_lt.mp h
  have hmin : -9223372036854775808 ≤ a.toInt := a.le_toInt
  rw [Int64.toInt_add, Int64.toInt_one, Int.bmod_eq_of_le] <;> omega

theorem lt_succ {a : Int64} (h : a < Int64.maxValue) : a < a + 1 := by
  rw [Int64.lt_iff_toInt_lt, toInt_succ h]
  omega

theorem lt_maxValue_of_ne {a : Int64} (h : a ≠ Int64.maxValue) : a < Int64.maxValue :=
  Int64.lt_of_le_of_ne (Int64.le_maxValue a) h

end RecordQuery.Integer
