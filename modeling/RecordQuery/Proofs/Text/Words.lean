import Mathlib.Tactic.Common
import RecordQuery.Text.Blank

namespace RecordQuery.Text

variable {s w : List Char} {c : Char}

theorem words_trimStart (s : List Char) : words (trimStart s) = words s := by
  induction s with
  | nil => rfl
  | cons c rest ih =>
      by_cases hc : isBlank c = true
      · rw [trimStart, List.dropWhile_cons_of_pos hc, words_blank hc]
        exact ih
      · rw [trimStart, List.dropWhile_cons_of_neg hc]

theorem words_append_blank (hc : isBlank c = true) (s : List Char) :
    words (s ++ [c]) = words s := by
  induction s with
  | nil => exact words_blank hc []
  | cons d rest ih =>
      have hstarts : startsBlank (rest ++ [c]) = startsBlank rest := by
        cases rest with
        | nil => exact hc
        | cons e rest => rfl
      rw [List.cons_append, words, words, hstarts, ih]

theorem words_reverse_trimStart (s : List Char) :
    words (trimStart s).reverse = words s.reverse := by
  induction s with
  | nil => rfl
  | cons c rest ih =>
      by_cases hc : isBlank c = true
      · rw [trimStart, List.dropWhile_cons_of_pos hc, List.reverse_cons, words_append_blank hc]
        exact ih
      · rw [trimStart, List.dropWhile_cons_of_neg hc]

theorem words_trim (s : List Char) : words (trim s) = words s := by
  rw [trim, words_reverse_trimStart, List.reverse_reverse, words_trimStart]

theorem words_append (hne : w ≠ []) (hw : ∀ c ∈ w, isBlank c = false)
    (hs : startsBlank s = true) : words (w ++ s) = w :: words s := by
  induction w with
  | nil => exact absurd rfl hne
  | cons c rest ih =>
      have hc : isBlank c = false := hw c (List.mem_cons_self ..)
      have hrest : ∀ d ∈ rest, isBlank d = false := fun d hd => hw d (List.mem_cons_of_mem _ hd)
      cases rest with
      | nil => simp [words, hc, hs]
      | cons d rest =>
          have hstarts : startsBlank (d :: rest ++ s) = false := hrest d (List.mem_cons_self ..)
          rw [List.cons_append, words, hc, hstarts, ih (List.cons_ne_nil d rest) hrest]
          rfl

theorem words_intercalate {ws : List (List Char)}
    (h : ∀ w ∈ ws, w ≠ [] ∧ ∀ c ∈ w, isBlank c = false) : words ([' '].intercalate ws) = ws := by
  induction ws with
  | nil => rfl
  | cons w rest ih =>
      obtain ⟨hne, hw⟩ := h w (List.mem_cons_self ..)
      have ih := ih fun v hv => h v (List.mem_cons_of_mem _ hv)
      cases rest with
      | nil => simpa [words] using words_append hne hw (rfl : startsBlank [] = true)
      | cons v rest =>
          rw [List.intercalate_cons_cons, List.append_assoc, List.singleton_append,
            words_append hne hw rfl, words_blank rfl, ih]

theorem words_eq_nil_iff (s : List Char) : words s = [] ↔ allBlank s = true := by
  induction s with
  | nil => simp [words, allBlank]
  | cons c rest ih =>
      cases hc : isBlank c with
      | true => rw [words_blank hc, ih, allBlank, allBlank, List.all_cons, hc, Bool.true_and]
      | false =>
          have hne : words (c :: rest) ≠ [] := by
            rw [words, hc]
            cases hr : startsBlank rest <;> cases words rest <;> simp [lengthen]
          simp [hne, allBlank, hc]

variable {pre post : List Char}

theorem words_blank_append (hpre : allBlank pre = true) (s : List Char) :
    words (pre ++ s) = words s := by
  induction pre with
  | nil => rfl
  | cons c rest ih =>
      rw [allBlank, List.all_cons, Bool.and_eq_true] at hpre
      rw [List.cons_append, words_blank hpre.1, ih hpre.2]

theorem words_append_blanks (hpost : allBlank post = true) (s : List Char) :
    words (s ++ post) = words s := by
  induction post generalizing s with
  | nil => rw [List.append_nil]
  | cons c rest ih =>
      rw [allBlank, List.all_cons, Bool.and_eq_true] at hpost
      rw [List.append_cons, ih hpost.2, words_append_blank hpost.1]

theorem startsBlank_of_allBlank (h : allBlank s = true) : startsBlank s = true := by
  cases s with
  | nil => rfl
  | cons c rest =>
      rw [allBlank, List.all_cons, Bool.and_eq_true] at h
      exact h.1

theorem eq_nil_of_startsBlank (hw : allBlank w = true) (h : startsBlank (w ++ s) = false) :
    w = [] := by
  cases w with
  | nil => rfl
  | cons c rest =>
      have hc : isBlank c = false := h
      rw [allBlank, List.all_cons, hc, Bool.false_and] at hw
      cases hw

theorem allBlank_of_startsBlank (h : startsBlank s = false) : allBlank s = false := by
  rw [Bool.eq_false_iff]
  intro hall
  rw [startsBlank_of_allBlank hall] at h
  cases h

theorem startsBlank_trimStart (h : allBlank s = false) : startsBlank (trimStart s) = false := by
  induction s with
  | nil => cases h
  | cons c rest ih =>
      by_cases hc : isBlank c = true
      · rw [trimStart, List.dropWhile_cons_of_pos hc]
        rw [allBlank, List.all_cons, hc, Bool.true_and] at h
        exact ih h
      · rw [trimStart, List.dropWhile_cons_of_neg hc]
        exact Bool.eq_false_iff.mpr hc

theorem exists_trimStart (s : List Char) : ∃ pre, allBlank pre = true ∧ s = pre ++ trimStart s :=
  ⟨s.takeWhile isBlank, List.all_takeWhile, List.takeWhile_append_dropWhile.symm⟩

theorem trimStart_eq_trim_append (s : List Char) :
    ∃ post, allBlank post = true ∧ trimStart s = trim s ++ post := by
  obtain ⟨pre, hpre, hsplit⟩ := exists_trimStart (trimStart s).reverse
  refine ⟨pre.reverse, by rwa [allBlank, List.all_reverse], ?_⟩
  have hback := congrArg List.reverse hsplit
  rwa [List.reverse_reverse, List.reverse_append] at hback

theorem exists_trim (s : List Char) :
    ∃ pre post, allBlank pre = true ∧ allBlank post = true ∧ s = pre ++ trim s ++ post := by
  obtain ⟨pre, hpre, hfront⟩ := exists_trimStart s
  obtain ⟨post, hpost, hback⟩ := trimStart_eq_trim_append s
  exact ⟨pre, post, hpre, hpost, by rw [List.append_assoc, ← hback, ← hfront]⟩

theorem startsBlank_trim (h : allBlank s = false) : startsBlank (trim s) = false := by
  obtain ⟨post, hpost, hback⟩ := trimStart_eq_trim_append s
  have hfront := startsBlank_trimStart h
  rw [hback] at hfront
  cases htrim : trim s with
  | nil =>
      rw [htrim, List.nil_append, startsBlank_of_allBlank hpost] at hfront
      cases hfront
  | cons c rest =>
      rw [htrim] at hfront
      exact hfront

theorem startsBlank_reverse_trim (h : allBlank s = false) :
    startsBlank (trim s).reverse = false := by
  rw [trim, List.reverse_reverse]
  refine startsBlank_trimStart ?_
  rw [allBlank, List.all_reverse]
  exact allBlank_of_startsBlank (startsBlank_trimStart h)

end RecordQuery.Text
