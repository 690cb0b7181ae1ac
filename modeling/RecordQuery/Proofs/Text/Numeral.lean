import Mathlib.Tactic.Common
import Mathlib.Tactic.IntervalCases
import RecordQuery.Text.Numeral

namespace RecordQuery.Text

theorem ofDigits_writeNat (n : Nat) : ofDigits (writeNat n) = n := Nat.ofDigitChars_ten_toDigits

theorem isDigit_of_mem_writeNat {n : Nat} {c : Char} (h : c ∈ writeNat n) : c.isDigit = true :=
  Nat.isDigit_of_mem_toDigits (by decide) (by decide) h

theorem digitValue_lt {c : Char} (h : c.isDigit = true) : digitValue c < 10 := by
  have hbounds := Char.isDigit_iff_toNat.mp h
  have hnine : '9'.toNat = '0'.toNat + 9 := rfl
  unfold digitValue
  omega

theorem length_writeNat_le {n k : Nat} (hk : 0 < k) (h : n < 10 ^ k) : (writeNat n).length ≤ k :=
  (Nat.length_toDigits_le_iff (b := 10) (by decide) hk).mpr h

theorem exists_cons_writeNat (n : Nat) : ∃ c s, writeNat n = c :: s ∧ c.isDigit = true := by
  have hne : writeNat n ≠ [] := Nat.toDigits_ne_nil
  obtain ⟨c, s, hs⟩ := List.exists_cons_of_ne_nil hne
  exact ⟨c, s, hs, isDigit_of_mem_writeNat (n := n) (by simp [hs])⟩

theorem head?_writeNat {n : Nat} (hn : 0 < n) : (writeNat n).head? ≠ some '0' := by
  induction n using Nat.strong_induction_on with
  | _ n ih =>
      unfold writeNat at ih ⊢
      rcases Nat.lt_or_ge n 10 with hlt | hge
      · rw [Nat.toDigits_of_lt_base hlt]
        interval_cases n <;> decide
      · have hdiv := ih (n / 10) (by omega) (by omega)
        obtain ⟨c, s, hs⟩ := List.exists_cons_of_ne_nil
          (Nat.toDigits_ne_nil : Nat.toDigits 10 (n / 10) ≠ [])
        rw [Nat.toDigits_of_base_le (by decide) hge]
        rw [hs] at hdiv ⊢
        exact hdiv

theorem le_ofDigitChars (digits : List Char) (n : Nat) : n ≤ Nat.ofDigitChars 10 digits n := by
  induction digits generalizing n with
  | nil => exact Nat.le_refl n
  | cons c rest ih =>
      rw [Nat.ofDigitChars_cons]
      exact Nat.le_trans (by omega) (ih _)

variable {lo hi sign : Int}

theorem bounded_eq_ok {n m : Int} : bounded lo hi n = .ok m ↔ n = m ∧ lo ≤ n ∧ n ≤ hi := by
  unfold bounded
  split
  · simp; omega
  · split
    · simp; omega
    · simp; omega

theorem sign_mul_next (hsign : sign = 1 ∨ sign = -1) (acc : Nat) (c : Char) :
    sign * acc * 10 + sign * digitValue c =
      sign * ((10 * acc + (c.toNat - '0'.toNat) : Nat) : Int) := by
  rcases hsign with rfl | rfl <;> simp only [digitValue] <;> omega

theorem readDigits_eq (hlo : lo ≤ 0) (hhi : 0 ≤ hi) (hsign : sign = 1 ∨ sign = -1)
    {digits : List Char} (h : ∀ c ∈ digits, c.isDigit = true) {acc n : Nat}
    (hn : Nat.ofDigitChars 10 digits acc = n) (hleast : lo ≤ sign * n) (hmost : sign * n ≤ hi) :
    readDigits lo hi sign (sign * acc) digits = .ok (sign * n) := by
  induction digits generalizing acc with
  | nil =>
      obtain rfl : acc = n := hn
      rfl
  | cons c rest ih =>
      obtain ⟨hc, hrest⟩ := List.forall_mem_cons.mp h
      rw [Nat.ofDigitChars_cons] at hn
      have hle := le_ofDigitChars rest (10 * acc + (c.toNat - '0'.toNat))
      rw [hn] at hle
      have hin : bounded lo hi (sign * ((10 * acc + (c.toNat - '0'.toNat) : Nat) : Int)) =
          .ok (sign * ((10 * acc + (c.toNat - '0'.toNat) : Nat) : Int)) := by
        rw [bounded_eq_ok]
        rcases hsign with rfl | rfl <;> omega
      rw [readDigits, if_pos hc, sign_mul_next hsign, hin]
      exact ih hrest hn

theorem eq_of_readDigits (hsign : sign = 1 ∨ sign = -1) {digits : List Char} {acc : Nat} {m : Int}
    (hleast : lo ≤ sign * acc) (hmost : sign * acc ≤ hi)
    (h : readDigits lo hi sign (sign * acc) digits = .ok m) :
    m = sign * Nat.ofDigitChars 10 digits acc ∧ lo ≤ m ∧ m ≤ hi := by
  induction digits generalizing acc with
  | nil =>
      obtain rfl := Except.ok.inj h
      exact ⟨rfl, hleast, hmost⟩
  | cons c rest ih =>
      rw [readDigits] at h
      split at h
      · split at h
        · rename_i hin
          rw [sign_mul_next hsign] at hin
          obtain ⟨rfl, hlo, hhi⟩ := bounded_eq_ok.mp hin
          rw [Nat.ofDigitChars_cons]
          exact ih hlo hhi h
        · cases h
      · cases h

def Digits (s : List Char) : Prop := s ≠ [] ∧ ∀ c ∈ s, c.isDigit = true

inductive Numeral : List Char → Int → Prop
  | bare {digits : List Char} : Digits digits → Numeral digits (ofDigits digits)
  | plus {digits : List Char} : Digits digits → Numeral ('+' :: digits) (ofDigits digits)
  | minus {digits : List Char} : Digits digits → Numeral ('-' :: digits) (-ofDigits digits)

theorem not_digits_cons {c : Char} (hc : c.isDigit = false) (s : List Char) : ¬Digits (c :: s) := by
  rintro ⟨-, h⟩
  rw [h c List.mem_cons_self] at hc
  cases hc

theorem numeral_plus {s : List Char} {n : Int} :
    Numeral ('+' :: s) n ↔ Digits s ∧ n = ofDigits s := by
  constructor
  · intro h
    cases h with
    | bare h => exact absurd h (not_digits_cons rfl s)
    | plus h => exact ⟨h, rfl⟩
  · rintro ⟨h, rfl⟩
    exact .plus h

theorem numeral_minus {s : List Char} {n : Int} :
    Numeral ('-' :: s) n ↔ Digits s ∧ n = -ofDigits s := by
  constructor
  · intro h
    cases h with
    | bare h => exact absurd h (not_digits_cons rfl s)
    | minus h => exact ⟨h, rfl⟩
  · rintro ⟨h, rfl⟩
    exact .minus h

theorem numeral_bare {c : Char} (hplus : c ≠ '+') (hminus : c ≠ '-') {s : List Char} {n : Int} :
    Numeral (c :: s) n ↔ Digits (c :: s) ∧ n = ofDigits (c :: s) := by
  constructor
  · intro h
    cases h with
    | bare h => exact ⟨h, rfl⟩
    | plus h => exact absurd rfl hplus
    | minus h => exact absurd rfl hminus
  · rintro ⟨h, rfl⟩
    exact .bare h

theorem readDigits_eq_ok_iff (hlo : lo ≤ 0) (hhi : 0 ≤ hi) (hsign : sign = 1 ∨ sign = -1)
    {digits : List Char} (hne : digits ≠ []) {m : Int} :
    readDigits lo hi sign 0 digits = .ok m ↔
      (Digits digits ∧ m = sign * ofDigits digits) ∧ lo ≤ m ∧ m ≤ hi := by
  have hzero : sign * ((0 : Nat) : Int) = 0 := Int.mul_zero sign
  constructor
  · intro h
    have hdigits := readDigits_eq_ok h
    rw [← hzero] at h
    obtain ⟨hm, hin⟩ := eq_of_readDigits hsign (hzero ▸ hlo) (hzero ▸ hhi) h
    exact ⟨⟨⟨hne, hdigits⟩, hm⟩, hin⟩
  · rintro ⟨⟨⟨-, hdigits⟩, rfl⟩, hleast, hmost⟩
    have hvalue : Nat.ofDigitChars 10 digits 0 = ofDigits digits := rfl
    have h := readDigits_eq hlo hhi hsign hdigits hvalue hleast hmost
    rwa [hzero] at h

theorem readInt_eq_ok_iff (hlo : lo < 0) (hhi : 0 ≤ hi) {s : List Char} {n : Int} :
    readInt lo hi s = .ok n ↔ Numeral s n ∧ lo ≤ n ∧ n ≤ hi := by
  have hempty : ¬Digits [] := fun h => h.1 rfl
  have hlo' := Int.le_of_lt hlo
  cases s with
  | nil =>
      refine iff_of_false nofun fun h => ?_
      cases h.1 with
      | bare hdigits => exact hempty hdigits
  | cons c rest =>
      by_cases hplus : c = '+'
      · subst hplus
        rw [numeral_plus]
        cases rest with
        | nil => exact iff_of_false nofun fun h => hempty h.1.1
        | cons d rest =>
            have h := readDigits_eq_ok_iff (m := n) hlo' hhi (.inl rfl) (List.cons_ne_nil d rest)
            rwa [Int.one_mul] at h
      by_cases hminus : c = '-'
      · subst hminus
        rw [numeral_minus]
        cases rest with
        | nil => exact iff_of_false nofun fun h => hempty h.1.1
        | cons d rest =>
            have h := readDigits_eq_ok_iff (m := n) hlo' hhi (.inr rfl) (List.cons_ne_nil d rest)
            rw [Int.neg_one_mul] at h
            rw [readInt, if_pos hlo]
            · exact h
            · exact List.cons_ne_nil d rest
      have h := readDigits_eq_ok_iff (m := n) hlo' hhi (.inl rfl) (List.cons_ne_nil c rest)
      rw [Int.one_mul] at h
      rw [numeral_bare hplus hminus, ← h, readInt] <;> simp [hplus, hminus]

theorem digits_writeNat (n : Nat) : Digits (writeNat n) :=
  ⟨Nat.toDigits_ne_nil, fun _ => isDigit_of_mem_writeNat⟩

theorem numeral_writeInt (n : Int) : Numeral (writeInt n) n := by
  cases n with
  | ofNat n =>
      have h := Numeral.bare (digits_writeNat n)
      rwa [ofDigits_writeNat] at h
  | negSucc n =>
      have h := Numeral.minus (digits_writeNat (n + 1))
      rwa [ofDigits_writeNat] at h

end RecordQuery.Text
