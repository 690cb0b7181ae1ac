import RecordQuery.Proofs.Text.Folding
import RecordQuery.Proofs.Text.Words

namespace RecordQuery

open RecordQuery.Text

namespace Text

variable {c d : Char} {before after s t u v : List Char}

section Runs

variable {run : CaseRun} {code : Nat}

def CaseRun.skips (run : CaseRun) (span : Span) : Bool :=
  Nat.blt run.last span.1 || Nat.blt span.2 run.first

theorem capitals_skip : capitals.all (fun run => blankSpans.all run.skips) = true := by
  decide

theorem small_of_isBlank (h : isBlank c = true) : Small c := by
  obtain ⟨span, hspan, hlow, hhigh⟩ := isBlank_iff.mp h
  have hdotted : c.toNat ≠ 0x130 := by
    intro hdotted
    rw [hdotted] at hlow hhigh
    have hnone : ∀ span ∈ blankSpans, ¬(span.1 ≤ 0x130 ∧ 0x130 ≤ span.2) := by decide
    exact hnone span hspan ⟨hlow, hhigh⟩
  have hnone : capitals.find? (·.covers c.toNat) = none := by
    rw [List.find?_eq_none]
    intro run hrun hcovers
    obtain ⟨hfirst, hlast, -⟩ := covers_iff.mp hcovers
    have hskips := List.all_eq_true.mp (List.all_eq_true.mp capitals_skip run hrun) span hspan
    simp only [CaseRun.skips, Bool.or_eq_true, Nat.blt_eq] at hskips
    omega
  unfold Small lowerOf
  rw [if_neg hdotted, hnone]

end Runs

section Blanks

theorem spans_apart : ((casedSpans ++ ignorableSpans).all fun span => blankSpans.all fun blank =>
    Nat.blt span.2 blank.1 || Nat.blt blank.2 span.1) = true := by
  decide +kernel

theorem not_holds_of_isBlank {span : Span} (hspan : span ∈ casedSpans ++ ignorableSpans)
    (h : isBlank c = true) : Span.holds c.toNat span = false := by
  obtain ⟨blank, hblank, hlow, hhigh⟩ := isBlank_iff.mp h
  have hapart := List.all_eq_true.mp (List.all_eq_true.mp spans_apart span hspan) blank hblank
  simp only [Bool.or_eq_true, Nat.blt_eq] at hapart
  simp only [Span.holds, Bool.and_eq_false_iff, decide_eq_false_iff_not]
  omega

theorem not_isIgnorable_of_isBlank (h : isBlank c = true) : isIgnorable c = false := by
  refine List.any_eq_false.mpr fun span hspan => ?_
  rw [not_holds_of_isBlank (List.mem_append_right _ hspan) h]
  exact Bool.false_ne_true

theorem not_isCased_of_isBlank (h : isBlank c = true) : isCased c = false := by
  refine List.any_eq_false.mpr fun span hspan => ?_
  rw [not_holds_of_isBlank (List.mem_append_left _ hspan) h]
  exact Bool.false_ne_true

theorem meetsCased_append (ht : startsBlank t = true) (s : List Char) :
    meetsCased (s ++ t) = meetsCased s := by
  induction s with
  | nil =>
      cases t with
      | nil => rfl
      | cons c rest =>
          have hc : isBlank c = true := ht
          change (if isIgnorable c then meetsCased rest else isCased c) = false
          rw [not_isIgnorable_of_isBlank hc, not_isCased_of_isBlank hc]
          rfl
  | cons c rest ih => rw [List.cons_append, meetsCased, meetsCased, ih]

theorem lowerSigma_append (hs : startsBlank s = true) (ht : startsBlank t = true)
    (before after : List Char) :
    lowerSigma (before ++ s) (after ++ t) = lowerSigma before after := by
  rw [lowerSigma, lowerSigma, meetsCased_append hs, meetsCased_append ht]

end Blanks

def lowerAt (before : List Char) (c : Char) (after : List Char) : List Char :=
  if c = capitalSigma then [lowerSigma before after] else lowerOf c

section Images

variable {image image' : List Char → Char → List Char → List Char}

def imagesIn (image : List Char → Char → List Char → List Char) (before : List Char) :
    List Char → List Char → List Char
  | [], _ => []
  | c :: rest, after => image before c (rest ++ after) ++ imagesIn image (c :: before) rest after

theorem imagesIn_append : imagesIn image before (s ++ t) after =
    imagesIn image before s (t ++ after) ++ imagesIn image (s.reverse ++ before) t after := by
  induction s generalizing before with
  | nil => rfl
  | cons c rest ih =>
      rw [List.cons_append, imagesIn, ih, imagesIn, List.append_assoc, List.append_assoc,
        List.reverse_cons, List.append_assoc]
      rfl

theorem imagesIn_congr {before' after' : List Char}
    (h : ∀ u c v, s = u ++ c :: v → image (u.reverse ++ before) c (v ++ after) =
      image' (u.reverse ++ before') c (v ++ after')) :
    imagesIn image before s after = imagesIn image' before' s after' := by
  induction s generalizing before before' with
  | nil => rfl
  | cons c rest ih =>
      have hrest : imagesIn image (c :: before) rest after =
          imagesIn image' (c :: before') rest after' := by
        refine ih fun u d v hsplit => ?_
        have hplace := h (c :: u) d v (by rw [hsplit, List.cons_append])
        simpa only [List.reverse_cons, List.append_assoc, List.singleton_append] using hplace
      rw [imagesIn, imagesIn, hrest]
      exact congrArg (· ++ _) (h [] c rest rfl)

theorem imagesIn_of_fixed (h : ∀ c ∈ s, ∀ before after, image before c after = [c]) :
    imagesIn image before s after = s := by
  induction s generalizing before with
  | nil => rfl
  | cons c rest ih =>
      rw [imagesIn, h c (List.mem_cons_self ..), ih fun d hd => h d (List.mem_cons_of_mem _ hd)]
      rfl

end Images

theorem lowerFrom_eq_imagesIn (before s : List Char) :
    lowerFrom before s = imagesIn lowerAt before s [] := by
  induction s generalizing before with
  | nil => rfl
  | cons c rest ih => rw [lowerFrom, imagesIn, ih, lowerAt, List.append_nil]

theorem lowerTurkic_eq_imagesIn (before s after : List Char) :
    lowerTurkic s = imagesIn (fun _ c _ => lowerTurkicOf c) before s after := by
  induction s generalizing before with
  | nil => rfl
  | cons c rest ih => rw [imagesIn, ← ih]; rfl

end Text

namespace Locale

variable {l : Locale} {c d : Char} {before after s t : List Char}

def foldAt (l : Locale) (before : List Char) (c : Char) (after : List Char) : List Char :=
  if l.isTurkic then lowerTurkicOf c else lowerAt before c after

theorem lowerChars_eq_imagesIn (l : Locale) (s : List Char) :
    l.lowerChars s = imagesIn l.foldAt [] s [] := by
  rw [lowerChars, Text.lower, lowerFrom_eq_imagesIn, lowerTurkic_eq_imagesIn [] s []]
  unfold foldAt
  cases l.isTurkic <;> rfl

theorem foldAt_of_small (hc : Small c) (before after : List Char) :
    l.foldAt before c after = [c] := by
  have hsigma : c ≠ capitalSigma := by
    rintro rfl
    revert hc
    decide
  rw [foldAt, lowerTurkicOf_of_small hc, lowerAt, if_neg hsigma, show lowerOf c = [c] from hc,
    ite_self]

theorem foldAt_cases (l : Locale) (before : List Char) (c : Char) (after : List Char) :
    (∃ d, 0x60 < d.toNat ∧ isBlank d = false ∧ l.foldAt before c after = [d]) ∨
      l.foldAt before c after = lowerOf c := by
  unfold foldAt lowerTurkicOf lowerAt lowerSigma
  split
  · split
    · exact .inl ⟨'\u0131', by decide, rfl, rfl⟩
    · split
      · exact .inl ⟨'i', by decide, rfl, rfl⟩
      · exact .inr rfl
  · split
    · split
      · exact .inl ⟨'\u03C2', by decide, rfl, rfl⟩
      · exact .inl ⟨'\u03C3', by decide, rfl, rfl⟩
    · exact .inr rfl

theorem foldAt_alone (l : Locale) (before : List Char) (c : Char) (after : List Char) :
    l.foldAt before c after = l.foldAt [] c [] ∨
      l.isTurkic = false ∧ c = capitalSigma ∧ l.foldAt before c after = ['\u03C2'] := by
  unfold foldAt lowerAt
  cases l.isTurkic with
  | true => exact .inl rfl
  | false =>
      by_cases hc : c = capitalSigma
      · unfold lowerSigma
        cases meetsCased before && !meetsCased after with
        | true => exact .inr ⟨rfl, hc, by rw [if_pos hc]; rfl⟩
        | false => exact .inl (by rw [if_pos hc, if_pos hc]; rfl)
      · exact .inl (by rw [if_neg hc, if_neg hc])

theorem eq_of_mem_foldAt (hd : d.toNat ≤ 0x60) (h : d ∈ l.foldAt before c after) : d = c := by
  rcases l.foldAt_cases before c after with ⟨e, he, -, hfold⟩ | hfold
  · obtain rfl := List.mem_singleton.mp (hfold ▸ h)
    exact absurd hd (Nat.not_le_of_lt he)
  · exact eq_of_mem_lowerOf (lone_of_le hd) (hfold ▸ h)

theorem foldAt_ne_nil (l : Locale) (before : List Char) (c : Char) (after : List Char) :
    l.foldAt before c after ≠ [] := by
  rcases l.foldAt_cases before c after with ⟨e, -, -, hfold⟩ | hfold
  · rw [hfold]
    exact List.cons_ne_nil _ _
  · rw [hfold]
    exact lowerOf_ne_nil c

theorem not_isBlank_of_mem_foldAt (hc : isBlank c = false) (h : d ∈ l.foldAt before c after) :
    isBlank d = false := by
  rcases l.foldAt_cases before c after with ⟨e, -, he, hfold⟩ | hfold
  · obtain rfl := List.mem_singleton.mp (hfold ▸ h)
    exact he
  · exact not_isBlank_of_mem_lowerOf hc (hfold ▸ h)

theorem foldAt_append (hs : startsBlank s = true) (ht : startsBlank t = true)
    (before : List Char) (c : Char) (after : List Char) :
    l.foldAt (before ++ s) c (after ++ t) = l.foldAt before c after := by
  rw [foldAt, foldAt, lowerAt, lowerAt, lowerSigma_append hs ht]

theorem imagesIn_foldAt_of_blank (h : allBlank s = true) (before after : List Char) :
    imagesIn l.foldAt before s after = s :=
  imagesIn_of_fixed fun _ hc => foldAt_of_small (small_of_isBlank (List.all_eq_true.mp h _ hc))

theorem lowerChars_between (hs : allBlank s = true) (ht : allBlank t = true) (u : List Char) :
    l.lowerChars (s ++ u ++ t) = s ++ l.lowerChars u ++ t := by
  have hinner : imagesIn l.foldAt s.reverse u t = imagesIn l.foldAt [] u [] := by
    refine imagesIn_congr fun v c w _ => ?_
    have hfront : startsBlank s.reverse = true :=
      startsBlank_of_allBlank (by rwa [allBlank, List.all_reverse])
    rw [foldAt_append hfront (startsBlank_of_allBlank ht), List.append_nil, List.append_nil]
  rw [lowerChars_eq_imagesIn, lowerChars_eq_imagesIn, imagesIn_append, imagesIn_append,
    imagesIn_foldAt_of_blank hs, imagesIn_foldAt_of_blank ht, List.append_nil, List.append_nil,
    hinner]

theorem words_lowerChars_trim (l : Locale) (s : List Char) :
    words (l.lowerChars (trim s)) = words (l.lowerChars s) := by
  obtain ⟨pre, post, hpre, hpost, hsplit⟩ := exists_trim s
  conv_rhs => rw [hsplit, lowerChars_between hpre hpost]
  rw [words_append_blanks hpost, words_blank_append hpre]

theorem not_startsBlank {w : List Char} (hne : w ≠ []) (hw : ∀ d ∈ w, isBlank d = false)
    (s : List Char) : startsBlank (w ++ s) = false := by
  obtain ⟨d, rest, rfl⟩ := List.exists_cons_of_ne_nil hne
  exact hw d (List.mem_cons_self ..)

theorem startsBlank_lowerChars (h : startsBlank s = false) :
    startsBlank (l.lowerChars s) = false := by
  cases s with
  | nil => cases h
  | cons c rest =>
      rw [lowerChars_eq_imagesIn, imagesIn]
      exact not_startsBlank (l.foldAt_ne_nil _ _ _) (fun _ => not_isBlank_of_mem_foldAt h) _

theorem startsBlank_reverse_lowerChars (h : startsBlank s.reverse = false) :
    startsBlank (l.lowerChars s).reverse = false := by
  obtain ⟨r, rfl⟩ : ∃ r, s = r.reverse := ⟨s.reverse, (List.reverse_reverse s).symm⟩
  rw [List.reverse_reverse] at h
  cases r with
  | nil => cases h
  | cons c rest =>
      have hc : isBlank c = false := h
      rw [List.reverse_cons, lowerChars_eq_imagesIn, imagesIn_append, List.reverse_append]
      simp only [imagesIn, List.append_nil]
      refine not_startsBlank ?_ (fun d hd => ?_) _
      · exact fun hnil => l.foldAt_ne_nil _ _ _ (List.reverse_eq_nil_iff.mp hnil)
      · exact not_isBlank_of_mem_foldAt hc (List.mem_reverse.mp hd)

end Locale

end RecordQuery
