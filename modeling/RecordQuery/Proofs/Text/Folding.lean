import Mathlib.Data.List.Chain
import Mathlib.Tactic.Common
import RecordQuery.Locale

namespace RecordQuery

open RecordQuery.Text

namespace Text

theorem isUpper_eq (c : Char) : c.isUpper = decide (c.val ≥ 'A'.val ∧ c.val ≤ 'Z'.val) := rfl

theorem isUpper_iff {c : Char} : c.isUpper = true ↔ 0x41 ≤ c.toNat ∧ c.toNat ≤ 0x5A := by
  rw [isUpper_eq, decide_eq_true_eq, UInt32.le_iff_toNat_le, ge_iff_le, UInt32.le_iff_toNat_le]
  rfl

theorem toLower_of_not_isUpper {c : Char} (h : c.isUpper = false) : c.toLower = c := by
  rw [isUpper_eq, decide_eq_false_iff_not] at h
  exact dif_neg h

theorem toNat_toLower {c : Char} (h : c.isUpper = true) : c.toLower.toNat = c.toNat + 32 := by
  have hle := (isUpper_iff.mp h).2
  have hupper : c.val ≥ 'A'.val ∧ c.val ≤ 'Z'.val := by
    rwa [isUpper_eq, decide_eq_true_eq] at h
  have hlower : c.toLower.toNat = (c.val + 32).toNat := congrArg Char.toNat (dif_pos hupper)
  rw [hlower, UInt32.toNat_add]
  exact Nat.mod_eq_of_lt (Nat.lt_of_le_of_lt (Nat.add_le_add_right hle 32) (by decide))

theorem isUpper_toLower (c : Char) : c.toLower.isUpper = false := by
  cases h : c.isUpper with
  | false => rw [toLower_of_not_isUpper h, h]
  | true =>
      rw [Bool.eq_false_iff, Ne, isUpper_iff, toNat_toLower h]
      have := (isUpper_iff.mp h).1
      omega

def CaseRun.endsBefore (run other : CaseRun) : Bool :=
  Nat.blt (run.image + (run.last - run.first)) other.first

def CaseRun.startsAfter (run other : CaseRun) : Bool :=
  Nat.blt other.last run.image

def CaseRun.clears (run other : CaseRun) : Bool :=
  run.endsBefore other || run.startsAfter other ||
    (Nat.beq other.step 2 && (Nat.beq run.step 2 || Nat.beq run.first run.last) &&
      Nat.beq ((run.image + other.first) % 2) 1)

def CaseRun.clearsUntil (run : CaseRun) (far : CaseRun → Bool) : List CaseRun → Bool
  | [] => true
  | other :: rest => far other || (run.clears other && run.clearsUntil far rest)

def clearFrom : List CaseRun → List CaseRun → Bool
  | _, [] => true
  | behind, run :: ahead =>
      run.clearsUntil run.startsAfter behind && run.clearsUntil run.endsBefore (run :: ahead) &&
        clearFrom (run :: behind) ahead

def CaseRun.Precedes (run other : CaseRun) : Prop :=
  run.first < other.first ∧ run.last < other.last

instance (run other : CaseRun) : Decidable (run.Precedes other) :=
  inferInstanceAs (Decidable (_ ∧ _))

instance : Trans CaseRun.Precedes CaseRun.Precedes CaseRun.Precedes where
  trans h h' := ⟨Nat.lt_trans h.1 h'.1, Nat.lt_trans h.2 h'.2⟩

theorem capitals_ordered : capitals.Pairwise CaseRun.Precedes :=
  List.isChain_iff_pairwise.mp (by decide +kernel)

theorem capitals_apart : clearFrom [] capitals = true := by
  decide +kernel

section Order

variable {run : CaseRun} {far : CaseRun → Bool} {runs behind ahead : List CaseRun}

theorem clears_of_clearsUntil (hfar : ∀ other, far other = true → run.clears other = true)
    (hstays : runs.Pairwise fun other next => far other = true → far next = true)
    (h : run.clearsUntil far runs = true) : ∀ other ∈ runs, run.clears other = true := by
  induction runs with
  | nil => simp
  | cons first rest ih =>
      obtain ⟨hfirst, hrest⟩ := List.pairwise_cons.mp hstays
      rw [CaseRun.clearsUntil, Bool.or_eq_true, Bool.and_eq_true] at h
      intro other hmem
      rcases h with h | ⟨hclears, h⟩
      · rcases List.mem_cons.mp hmem with rfl | hmem
        · exact hfar _ h
        · exact hfar _ (hfirst other hmem h)
      · rcases List.mem_cons.mp hmem with rfl | hmem
        · exact hclears
        · exact ih hrest h other hmem

theorem clears_of_endsBefore {other : CaseRun} (h : run.endsBefore other = true) :
    run.clears other = true := by
  rw [CaseRun.clears, h, Bool.true_or, Bool.true_or]

theorem clears_of_startsAfter {other : CaseRun} (h : run.startsAfter other = true) :
    run.clears other = true := by
  rw [CaseRun.clears, h, Bool.or_true, Bool.true_or]

theorem clears_of_clearFrom (horder : (behind.reverse ++ ahead).Pairwise CaseRun.Precedes)
    (h : clearFrom behind ahead = true) :
    ∀ run ∈ ahead, ∀ other ∈ behind.reverse ++ ahead, run.clears other = true := by
  induction ahead generalizing behind with
  | nil => simp
  | cons first rest ih =>
      rw [clearFrom, Bool.and_eq_true, Bool.and_eq_true] at h
      obtain ⟨⟨hbehind, hahead⟩, hrest⟩ := h
      have hnext : behind.reverse ++ first :: rest = (first :: behind).reverse ++ rest := by simp
      intro run hrun other hother
      rcases List.mem_cons.mp hrun with rfl | hrun
      · obtain ⟨hback, hfront, -⟩ := List.pairwise_append.mp horder
        rcases List.mem_append.mp hother with hother | hother
        · refine clears_of_clearsUntil (fun _ => clears_of_startsAfter) ?_ hbehind other
            (List.mem_reverse.mp hother)
          refine (List.pairwise_reverse.mp hback).imp fun hprecedes hstarts => ?_
          simp only [CaseRun.startsAfter, Nat.blt_eq] at hstarts ⊢
          exact Nat.lt_trans hprecedes.2 hstarts
        · refine clears_of_clearsUntil (fun _ => clears_of_endsBefore) ?_ hahead other hother
          refine hfront.imp fun hprecedes hends => ?_
          simp only [CaseRun.endsBefore, Nat.blt_eq] at hends ⊢
          exact Nat.lt_trans hends hprecedes.1
      · rw [hnext] at horder hother
        exact ih horder hrest run hrun other hother

end Order

theorem capitals_clear : ∀ run ∈ capitals, ∀ other ∈ capitals, run.clears other = true :=
  @clears_of_clearFrom [] capitals capitals_ordered capitals_apart

def CaseRun.isSound (run : CaseRun) : Bool :=
  Nat.blt 0x60 run.image && Nat.ble run.first run.last && Nat.blt 0 run.step &&
    (Nat.blt (run.image + (run.last - run.first)) 0xD800 ||
      (Nat.blt 0xDFFF run.image && Nat.blt (run.image + (run.last - run.first)) 0x110000)) &&
    (Nat.blt (run.image + (run.last - run.first)) 0x130 || Nat.blt 0x130 run.image)

theorem capitals_sound : capitals.all CaseRun.isSound = true := by decide

def Small (c : Char) : Prop := lowerOf c = [c]

instance (c : Char) : Decidable (Small c) := inferInstanceAs (Decidable (_ = _))

variable {run other : CaseRun} {code : Nat}

theorem covers_iff : run.covers code = true ↔
    run.first ≤ code ∧ code ≤ run.last ∧ (code - run.first) % run.step = 0 := by
  simp [CaseRun.covers, and_assoc]

theorem not_covers_target (hclear : run.clears other = true) (hcovers : run.covers code = true) :
    other.covers (run.target code) = false := by
  obtain ⟨hfirst, hlast, hstep⟩ := covers_iff.mp hcovers
  rw [Bool.eq_false_iff]
  intro hother
  obtain ⟨hfirst', hlast', hstep'⟩ := covers_iff.mp hother
  unfold CaseRun.target at hfirst' hlast' hstep'
  simp only [CaseRun.clears, CaseRun.endsBefore, CaseRun.startsAfter, Bool.or_eq_true,
    Bool.and_eq_true, Nat.blt_eq, Nat.beq_eq] at hclear
  rcases hclear with (hclear | hclear) | ⟨⟨htwo, hrun⟩, hparity⟩
  · omega
  · omega
  · have heven : (code - run.first) % 2 = 0 := by
      rcases hrun with hrun | hrun
      · rw [hrun] at hstep
        exact hstep
      · omega
    rw [htwo] at hstep'
    omega

theorem target_sound (hsound : run.isSound = true) (hcovers : run.covers code = true) :
    (run.target code).isValidChar ∧ 0x60 < run.target code ∧ run.target code ≠ 0x130 := by
  obtain ⟨hfirst, hlast, -⟩ := covers_iff.mp hcovers
  simp only [CaseRun.isSound, Bool.or_eq_true, Bool.and_eq_true, Nat.blt_eq, Nat.ble_eq] at hsound
  unfold CaseRun.target Nat.isValidChar
  omega

theorem find?_target (hrun : run ∈ capitals) (hcovers : run.covers code = true) :
    capitals.find? (·.covers (run.target code)) = none := by
  rw [List.find?_eq_none]
  intro other hother
  rw [not_covers_target (capitals_clear run hrun other hother) hcovers]
  exact Bool.false_ne_true

theorem covers_of_find? (h : capitals.find? (·.covers code) = some run) :
    run ∈ capitals ∧ run.covers code = true :=
  ⟨List.mem_of_find?_eq_some h, by simpa using List.find?_some h⟩

theorem toNat_ofNat {n : Nat} (h : n.isValidChar) : (Char.ofNat n).toNat = n := by
  rw [Char.ofNat, dif_pos h]
  rfl

theorem small_of_mem_lowerOf {c d : Char} (h : d ∈ lowerOf c) : Small d := by
  unfold lowerOf at h
  split at h
  · rcases List.mem_cons.mp h with rfl | h
    · decide
    · obtain rfl := List.mem_singleton.mp h
      decide
  · split at h
    · rename_i run hfind
      obtain rfl := List.mem_singleton.mp h
      obtain ⟨hrun, hcovers⟩ := covers_of_find? hfind
      obtain ⟨hvalid, -, hdotted⟩ :=
        target_sound (List.all_eq_true.mp capitals_sound run hrun) hcovers
      unfold Small lowerOf
      rw [toNat_ofNat hvalid, if_neg hdotted, find?_target hrun hcovers]
    · rename_i hdotted _ hfind
      obtain rfl := List.mem_singleton.mp h
      unfold Small lowerOf
      rw [if_neg hdotted, hfind]

theorem capitals_beyond : (capitals.drop 1).all (fun run => Nat.ble 128 run.first) = true := by
  decide

theorem find?_ascii {n : Nat} (h : n < 128) : capitals.find? (·.covers n) =
    if 0x41 ≤ n ∧ n ≤ 0x5A then some ⟨0x41, 0x5A, 1, 0x61⟩ else none := by
  have hrest : (capitals.drop 1).find? (·.covers n) = none := by
    rw [List.find?_eq_none]
    intro run hrun hcovers
    have hfirst := Nat.le_of_ble_eq_true (List.all_eq_true.mp capitals_beyond run hrun)
    have hle := (covers_iff.mp hcovers).1
    omega
  have hcons : capitals = ⟨0x41, 0x5A, 1, 0x61⟩ :: capitals.drop 1 := rfl
  rw [hcons, List.find?_cons, hrest]
  by_cases hn : 0x41 ≤ n ∧ n ≤ 0x5A
  · have hcovers : CaseRun.covers ⟨0x41, 0x5A, 1, 0x61⟩ n = true :=
      covers_iff.mpr ⟨hn.1, hn.2, Nat.mod_one _⟩
    rw [hcovers, if_pos hn]
  · have hcovers : CaseRun.covers ⟨0x41, 0x5A, 1, 0x61⟩ n = false := by
      rw [Bool.eq_false_iff]
      intro hcovers
      exact hn ⟨(covers_iff.mp hcovers).1, (covers_iff.mp hcovers).2.1⟩
    rw [hcovers, if_neg hn]

theorem lowerOf_ascii {c : Char} (h : c.toNat < 128) : lowerOf c = [c.toLower] := by
  have hdotted : c.toNat ≠ 0x130 := by omega
  unfold lowerOf
  rw [if_neg hdotted, find?_ascii h]
  by_cases hupper : 0x41 ≤ c.toNat ∧ c.toNat ≤ 0x5A
  · have htarget : CaseRun.target ⟨0x41, 0x5A, 1, 0x61⟩ c.toNat = c.toNat + 32 := by
      change 0x61 + (c.toNat - 0x41) = c.toNat + 32
      omega
    rw [if_pos hupper]
    simp only [htarget]
    rw [← toNat_toLower (isUpper_iff.mpr hupper), Char.ofNat_toNat]
  · have hnot : c.isUpper = false := Bool.eq_false_iff.mpr fun h => hupper (isUpper_iff.mp h)
    rw [if_neg hupper, toLower_of_not_isUpper hnot]

theorem not_isUpper_of_small {c : Char} (h : Small c) : c.isUpper = false := by
  rw [Bool.eq_false_iff]
  intro hupper
  have hlow : c.toNat < 128 := Nat.lt_of_le_of_lt (isUpper_iff.mp hupper).2 (by decide)
  have hself : c.toLower = c := List.singleton_inj.mp ((lowerOf_ascii hlow).symm.trans h)
  have hnot := isUpper_toLower c
  rw [hself, hupper] at hnot
  cases hnot

structure Lone (d : Char) : Prop where
  notSpecial : d ∉ ['i', '\u0131', '\u0307', '\u03C2', '\u03C3']
  notTarget : ∀ run ∈ capitals, ∀ code, run.covers code = true → run.target code ≠ d.toNat

theorem lone_of_le {d : Char} (hd : d.toNat ≤ 0x60) : Lone d := by
  refine ⟨?_, fun run hrun code hcovers htarget => ?_⟩
  · simp only [List.mem_cons, List.not_mem_nil, or_false]
    rintro (rfl | rfl | rfl | rfl | rfl) <;> exact absurd hd (by decide)
  · have hsound := target_sound (List.all_eq_true.mp capitals_sound run hrun) hcovers
    omega

theorem capitals_skip_unreadable : capitals.all (fun run =>
    Nat.blt (run.image + (run.last - run.first)) 0xFFFD || Nat.blt 0xFFFF run.image) = true := by
  decide

theorem lone_of_unreadable {d : Char} (hd : 0xFFFD ≤ d.toNat ∧ d.toNat ≤ 0xFFFF) : Lone d := by
  refine ⟨?_, fun run hrun code hcovers htarget => ?_⟩
  · simp only [List.mem_cons, List.not_mem_nil, or_false]
    rintro (rfl | rfl | rfl | rfl | rfl) <;> exact absurd hd (by decide)
  · have hskips := List.all_eq_true.mp capitals_skip_unreadable run hrun
    obtain ⟨hfirst, hlast, -⟩ := covers_iff.mp hcovers
    simp only [Bool.or_eq_true, Nat.blt_eq] at hskips
    unfold CaseRun.target at htarget
    omega

theorem eq_of_mem_lowerOf {c d : Char} (hd : Lone d) (h : d ∈ lowerOf c) : d = c := by
  unfold lowerOf at h
  split at h
  · refine absurd ?_ hd.notSpecial
    rcases List.mem_cons.mp h with rfl | h
    · decide
    · obtain rfl := List.mem_singleton.mp h
      decide
  · split at h
    · rename_i run hfind
      obtain rfl := List.mem_singleton.mp h
      obtain ⟨hrun, hcovers⟩ := covers_of_find? hfind
      obtain ⟨hvalid, -, -⟩ := target_sound (List.all_eq_true.mp capitals_sound run hrun) hcovers
      exact absurd (toNat_ofNat hvalid).symm (hd.notTarget run hrun _ hcovers)
    · exact List.mem_singleton.mp h

def blankSpans : List (Nat × Nat) :=
  [(9, 13), (0x20, 0x20), (0x85, 0x85), (0xA0, 0xA0), (0x1680, 0x1680), (0x2000, 0x200A),
    (0x2028, 0x2029), (0x202F, 0x202F), (0x205F, 0x205F), (0x3000, 0x3000)]

theorem isBlank_iff {c : Char} :
    isBlank c = true ↔ ∃ span ∈ blankSpans, span.1 ≤ c.toNat ∧ c.toNat ≤ span.2 := by
  simp only [isBlank, blankSpans, Bool.or_eq_true, Bool.and_eq_true, decide_eq_true_eq, beq_iff_eq,
    List.mem_cons, List.not_mem_nil, or_false, exists_eq_or_imp, exists_eq_left]
  omega

theorem not_isBlank_of_isDigit {c : Char} (h : c.isDigit = true) : isBlank c = false := by
  have hrange : 48 ≤ c.toNat ∧ c.toNat ≤ 57 := by
    simp only [Char.isDigit, Bool.and_eq_true, decide_eq_true_eq, ge_iff_le,
      UInt32.le_iff_toNat_le] at h
    exact h
  simp only [isBlank, Bool.or_eq_false_iff, Bool.and_eq_false_iff, decide_eq_false_iff_not,
    beq_eq_false_iff_ne]
  omega

def CaseRun.avoids (run : CaseRun) (span : Nat × Nat) : Bool :=
  Nat.blt (run.image + (run.last - run.first)) span.1 || Nat.blt span.2 run.image

theorem capitals_avoid : capitals.all (fun run => blankSpans.all run.avoids) = true := by
  decide

theorem not_isBlank_target (hrun : run ∈ capitals) (hcovers : run.covers code = true) :
    isBlank (Char.ofNat (run.target code)) = false := by
  obtain ⟨hfirst, hlast, -⟩ := covers_iff.mp hcovers
  obtain ⟨hvalid, -, -⟩ := target_sound (List.all_eq_true.mp capitals_sound run hrun) hcovers
  rw [Bool.eq_false_iff]
  intro hblank
  obtain ⟨span, hspan, hlow, hhigh⟩ := isBlank_iff.mp hblank
  have havoids := List.all_eq_true.mp (List.all_eq_true.mp capitals_avoid run hrun) span hspan
  simp only [CaseRun.avoids, Bool.or_eq_true, Nat.blt_eq] at havoids
  rw [toNat_ofNat hvalid, CaseRun.target] at hlow hhigh
  omega

theorem not_isBlank_of_mem_lowerOf {c d : Char} (hc : isBlank c = false) (h : d ∈ lowerOf c) :
    isBlank d = false := by
  unfold lowerOf at h
  split at h
  · rcases List.mem_cons.mp h with rfl | h
    · rfl
    · obtain rfl := List.mem_singleton.mp h
      rfl
  · split at h
    · rename_i run hfind
      obtain rfl := List.mem_singleton.mp h
      obtain ⟨hrun, hcovers⟩ := covers_of_find? hfind
      exact not_isBlank_target hrun hcovers
    · obtain rfl := List.mem_singleton.mp h
      exact hc

theorem lowerOf_ne_nil (c : Char) : lowerOf c ≠ [] := by
  unfold lowerOf
  split
  · simp
  · split <;> simp

theorem exists_mem_lowerOf {c : Char} (hc : isBlank c = false) :
    ∃ d ∈ lowerOf c, isBlank d = false := by
  obtain ⟨d, hd⟩ := List.exists_mem_of_ne_nil _ (lowerOf_ne_nil c)
  exact ⟨d, hd, not_isBlank_of_mem_lowerOf hc hd⟩

theorem mem_lowerFrom {before s : List Char} {d : Char} (h : d ∈ lowerFrom before s) :
    d = '\u03C2' ∨ d = '\u03C3' ∨ ∃ c ∈ s, d ∈ lowerOf c := by
  induction s generalizing before with
  | nil => cases h
  | cons c rest ih =>
      rcases List.mem_append.mp h with h | h
      · split at h
        · obtain rfl := List.mem_singleton.mp h
          unfold lowerSigma
          split
          · exact .inl rfl
          · exact .inr (.inl rfl)
        · exact .inr (.inr ⟨c, List.mem_cons_self .., h⟩)
      · rcases ih h with h | h | ⟨c', hc', hd⟩
        · exact .inl h
        · exact .inr (.inl h)
        · exact .inr (.inr ⟨c', List.mem_cons_of_mem _ hc', hd⟩)

theorem small_of_mem_lower {s : List Char} {d : Char} (h : d ∈ lower s) : Small d := by
  rcases mem_lowerFrom h with rfl | rfl | ⟨c, -, hd⟩
  · decide
  · decide
  · exact small_of_mem_lowerOf hd

theorem lowerFrom_of_small {before s : List Char} (h : ∀ c ∈ s, Small c) :
    lowerFrom before s = s := by
  induction s generalizing before with
  | nil => rfl
  | cons c rest ih =>
      have hc : Small c := h c (List.mem_cons_self ..)
      have hsigma : c ≠ capitalSigma := by
        rintro rfl
        revert hc
        decide
      rw [lowerFrom, if_neg hsigma, ih fun d hd => h d (List.mem_cons_of_mem _ hd)]
      rw [show lowerOf c = [c] from hc]
      rfl

theorem lower_of_small {s : List Char} (h : ∀ c ∈ s, Small c) : lower s = s :=
  lowerFrom_of_small h

theorem small_of_mem_lowerTurkic {s : List Char} {d : Char} (h : d ∈ lowerTurkic s) : Small d := by
  obtain ⟨c, -, hd⟩ := List.mem_flatMap.mp h
  unfold lowerTurkicOf at hd
  split at hd
  · obtain rfl := List.mem_singleton.mp hd
    decide
  · split at hd
    · obtain rfl := List.mem_singleton.mp hd
      decide
    · exact small_of_mem_lowerOf hd

theorem lowerTurkicOf_of_small {c : Char} (h : Small c) : lowerTurkicOf c = [c] := by
  unfold lowerTurkicOf
  split
  · rename_i hc
    subst hc
    revert h
    decide
  · split
    · rename_i hc
      have hdotted : c = '\u0130' := by rw [← Char.ofNat_toNat c, hc]
      subst hdotted
      revert h
      decide
    · exact h

theorem lowerTurkic_of_small {s : List Char} (h : ∀ c ∈ s, Small c) : lowerTurkic s = s := by
  induction s with
  | nil => rfl
  | cons c rest ih =>
      have hrest := ih fun d hd => h d (List.mem_cons_of_mem _ hd)
      rw [lowerTurkic, List.flatMap_cons, lowerTurkicOf_of_small (h c (List.mem_cons_self ..))]
      exact congrArg (c :: ·) hrest

theorem allBlank_eq_false_iff {s : List Char} :
    allBlank s = false ↔ ∃ c ∈ s, isBlank c = false := by
  simp [allBlank]

theorem lowerFrom_not_blank {before s : List Char} (h : allBlank s = false) :
    allBlank (lowerFrom before s) = false := by
  induction s generalizing before with
  | nil => cases h
  | cons c rest ih =>
      rw [lowerFrom, allBlank, List.all_append, Bool.and_eq_false_iff]
      cases hc : isBlank c with
      | true =>
          rw [allBlank, List.all_cons, hc, Bool.true_and] at h
          exact .inr (ih h)
      | false =>
          left
          split
          · unfold lowerSigma
            split <;> rfl
          · exact allBlank_eq_false_iff.mpr (exists_mem_lowerOf hc)

theorem lowerTurkic_not_blank {s : List Char} (h : allBlank s = false) :
    allBlank (lowerTurkic s) = false := by
  obtain ⟨c, hmem, hc⟩ := allBlank_eq_false_iff.mp h
  have himage : ∃ d ∈ lowerTurkicOf c, isBlank d = false := by
    unfold lowerTurkicOf
    split
    · exact ⟨'\u0131', List.mem_singleton_self _, rfl⟩
    · split
      · exact ⟨'i', List.mem_singleton_self _, rfl⟩
      · exact exists_mem_lowerOf hc
  obtain ⟨d, hd, hblank⟩ := himage
  exact allBlank_eq_false_iff.mpr ⟨d, List.mem_flatMap.mpr ⟨c, hmem, hd⟩, hblank⟩

theorem mem_of_mem_lower {s : List Char} {d : Char} (hd : Lone d) (h : d ∈ lower s) : d ∈ s := by
  rcases mem_lowerFrom h with rfl | rfl | ⟨c, hc, hdc⟩
  · exact absurd (by decide) hd.notSpecial
  · exact absurd (by decide) hd.notSpecial
  · rwa [eq_of_mem_lowerOf hd hdc]

theorem mem_of_mem_lowerTurkic {s : List Char} {d : Char} (hd : Lone d) (h : d ∈ lowerTurkic s) :
    d ∈ s := by
  obtain ⟨c, hc, hdc⟩ := List.mem_flatMap.mp h
  unfold lowerTurkicOf at hdc
  split at hdc
  · obtain rfl := List.mem_singleton.mp hdc
    exact absurd (by decide) hd.notSpecial
  · split at hdc
    · obtain rfl := List.mem_singleton.mp hdc
      exact absurd (by decide) hd.notSpecial
    · rwa [eq_of_mem_lowerOf hd hdc]

theorem lower_eq_lowerAscii {s : List Char} (h : ∀ c ∈ s, c.toNat < 128 ∨ Small c) :
    lower s = lowerAscii s := by
  have hfrom : ∀ before : List Char, lowerFrom before s = lowerAscii s := by
    induction s with
    | nil => exact fun _ => rfl
    | cons c rest ih =>
        intro before
        have hc := h c (List.mem_cons_self ..)
        have hsigma : c ≠ capitalSigma := by
          rintro rfl
          revert hc
          decide
        have hlower : lowerOf c = [c.toLower] := by
          rcases hc with hascii | hsmall
          · exact lowerOf_ascii hascii
          · rw [toLower_of_not_isUpper (not_isUpper_of_small hsmall)]
            exact hsmall
        rw [lowerFrom, if_neg hsigma, hlower, ih fun d hd => h d (List.mem_cons_of_mem _ hd)]
        rfl
  exact hfrom []

theorem lower_ascii {s : List Char} (h : ∀ c ∈ s, c.toNat < 128) : lower s = lowerAscii s :=
  lower_eq_lowerAscii fun c hc => .inl (h c hc)

end Text

namespace Locale

variable {l : Locale} {s : List Char} {c : Char}

theorem small_of_mem_lowerChars (h : c ∈ l.lowerChars s) : Small c := by
  unfold lowerChars at h
  split at h
  · exact small_of_mem_lowerTurkic h
  · exact small_of_mem_lower h

theorem lowerChars_of_small (h : ∀ c ∈ s, Small c) : l.lowerChars s = s := by
  unfold lowerChars
  split
  · exact lowerTurkic_of_small h
  · exact lower_of_small h

theorem toList_lower (l : Locale) (s : String) : (l.lower s).toList = l.lowerChars s.toList :=
  String.toList_ofList

theorem lower_eq_self {s : String} (h : ∀ c ∈ s.toList, Small c) : l.lower s = s := by
  rw [lower, lowerChars_of_small h, String.ofList_toList]

theorem lowerChars_not_blank (h : allBlank s = false) : allBlank (l.lowerChars s) = false := by
  unfold lowerChars
  split
  · exact lowerTurkic_not_blank h
  · exact lowerFrom_not_blank h

theorem mem_of_mem_lowerChars (hc : Lone c) (h : c ∈ l.lowerChars s) : c ∈ s := by
  unfold lowerChars at h
  split at h
  · exact mem_of_mem_lowerTurkic hc h
  · exact mem_of_mem_lower hc h

end Locale

end RecordQuery
