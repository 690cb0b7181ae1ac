namespace RecordQuery.Number

def twoTo (n : Nat) : Nat := Nat.pow 2 n

theorem twoTo_pos (n : Nat) : 0 < twoTo n := Nat.pow_pos (by decide)

def roundDiv (n d : Nat) : Nat :=
  if 2 * (n % d) < d then n / d
  else if d < 2 * (n % d) then n / d + 1
  else n / d + n / d % 2

theorem roundDiv_near (n : Nat) {d : Nat} (hd : 0 < d) :
    2 * (roundDiv n d * d) ≤ 2 * n + d ∧ 2 * n ≤ 2 * (roundDiv n d * d) + d := by
  have hr := Nat.mod_lt n hd
  have h := Nat.div_add_mod' n d
  have hs : (n / d + 1) * d = n / d * d + d := Nat.succ_mul ..
  unfold roundDiv
  split
  · omega
  · split
    · rw [hs]
      omega
    · rcases Nat.mod_two_eq_zero_or_one (n / d) with e | e
      · rw [e, Nat.add_zero]
        omega
      · rw [e, hs]
        omega

theorem roundDiv_one (n : Nat) : roundDiv n 1 = n := by
  simp [roundDiv, Nat.mod_one]

def bitLength (n : Nat) : Nat := if n = 0 then 0 else n.log2 + 1

structure Scaled where
  significand : Nat
  exponent : Int
  deriving DecidableEq, Repr

namespace Scaled

def ofNat (n : Nat) : Scaled := ⟨n, 0⟩

def round (bits : Nat) (a : Scaled) : Scaled :=
  let drop := bitLength a.significand - bits
  ⟨roundDiv a.significand (twoTo drop), a.exponent + drop⟩

def mul (bits : Nat) (a b : Scaled) : Scaled :=
  round bits ⟨a.significand * b.significand, a.exponent + b.exponent⟩

def inverse (bits d : Nat) : Scaled :=
  let places := bitLength d + bits - 1
  ⟨roundDiv (twoTo places) d, -places⟩

def atExponent (exponent : Int) (a : Scaled) : Nat :=
  a.significand * twoTo (a.exponent - exponent).toNat

def less (a b : Scaled) : Bool :=
  let exponent := min a.exponent b.exponent
  a.atExponent exponent < b.atExponent exponent

def floor (a : Scaled) : Nat :=
  match a.exponent with
  | .ofNat n => a.significand * twoTo n
  | .negSucc n => a.significand / twoTo (n + 1)

theorem round_of_short {bits : Nat} {a : Scaled} (h : bitLength a.significand ≤ bits) :
    round bits a = a := by
  have e : bitLength a.significand - bits = 0 := Nat.sub_eq_zero_of_le h
  simp [round, e, twoTo, roundDiv_one]

theorem less_irrefl (a : Scaled) : less a a = false := by
  simp [less]

end Scaled

end RecordQuery.Number
