import Mathlib.Data.List.TakeWhile
import RecordQuery.Proofs.Bounds.Text

namespace RecordQuery

open RecordQuery.Text

namespace Locale

def isTagPart (c : Char) : Bool := isLetter c || c.isDigit

section

variable {c : Char}

theorem ascii_of_isTagPart (h : isTagPart c = true) : c.toNat < 128 := by
  simp only [isTagPart, isLetter, Char.isDigit, Bool.or_eq_true, Bool.and_eq_true,
    decide_eq_true_eq,
    Char.le_def, UInt32.le_iff_toNat_le, ge_iff_le] at h
  change (_ ∧ c.toNat ≤ 122 ∨ _ ∧ c.toNat ≤ 90) ∨ _ ∧ c.toNat ≤ 57 at h
  omega

theorem tagPart_induction {p : Char → Prop}
    (hp : ∀ n < 128, isTagPart (Char.ofNat n) = true → p (Char.ofNat n)) (h : isTagPart c = true) :
    p c := by
  have hcode := hp c.toNat (ascii_of_isTagPart h)
  rw [Char.ofNat_toNat] at hcode
  exact hcode h

theorem isTagPart_of_isLetter (h : isLetter c = true) : isTagPart c = true := by
  rw [isTagPart, h, Bool.true_or]

theorem not_isBlank_of_isTagPart (h : isTagPart c = true) : isBlank c = false :=
  tagPart_induction (p := fun c => isBlank c = false) (by decide) h

theorem not_isSuffixMark_of_isTagPart (h : isTagPart c = true) : isSuffixMark c = false :=
  tagPart_induction (p := fun c => isSuffixMark c = false) (by decide) h

theorem not_isSeparator_of_isTagPart (h : isTagPart c = true) : isSeparator c = false :=
  tagPart_induction (p := fun c => isSeparator c = false) (by decide) h

theorem isLetter_toLower (h : isLetter c = true) :
    isLetter c.toLower = true ∧ c.toLower.toLower = c.toLower :=
  tagPart_induction (p := fun c => isLetter c = true →
    isLetter c.toLower = true ∧ c.toLower.toLower = c.toLower) (by decide)
      (isTagPart_of_isLetter h) h

theorem isTagPart_toUpper (h : isTagPart c = true) :
    isTagPart c.toUpper = true ∧ c.toUpper.toUpper = c.toUpper :=
  tagPart_induction (p := fun c => isTagPart c.toUpper = true ∧ c.toUpper.toUpper = c.toUpper)
    (by decide) h

end

theorem lowerAscii_eq_self {s : List Char} (h : ∀ c ∈ s, c.toLower = c) : lowerAscii s = s :=
  (List.map_congr_left h).trans (List.map_id s)

theorem upperAscii_eq_self {s : List Char} (h : ∀ c ∈ s, c.toUpper = c) : upperAscii s = s :=
  (List.map_congr_left h).trans (List.map_id s)

theorem not_isSeparator_of_isNeutral {base : List Char} (h : isNeutral base = true) :
    ∀ c ∈ base, isSeparator c = false := by
  intro c hc
  have hlower : c.toLower ∈ lowerAscii base := List.mem_map_of_mem hc
  cases hseparator : isSeparator c with
  | false => rfl
  | true =>
      simp only [isNeutral, isSeparator, Bool.or_eq_true, beq_iff_eq] at h hseparator
      rcases hseparator with rfl | rfl
      all_goals rcases h with h | h
      all_goals
        rw [h] at hlower
        revert hlower
        decide

theorem isNeutral_lowerAscii (base : List Char) (h : ∀ c ∈ base, isLetter c = true) :
    isNeutral (lowerAscii base) = isNeutral base := by
  have htwice : lowerAscii (lowerAscii base) = lowerAscii base := by
    refine lowerAscii_eq_self fun c hc => ?_
    obtain ⟨d, hd, rfl⟩ := List.mem_map.mp hc
    exact (isLetter_toLower (h d hd)).2
  rw [isNeutral, isNeutral, htwice]

def baseOf (s : String) : List Char := (trim s.toList).takeWhile fun c => !isSuffixMark c

def Ends (s : List Char) : Prop := ∀ c ∈ s.head?, isSeparator c = true

section

variable {base language tail : List Char} {l : Locale}

theorem takeWhile_of_ends (h : Ends tail) : tail.takeWhile (fun c => !isSeparator c) = [] := by
  cases tail with
  | nil => rfl
  | cons c rest => simp [h c rfl]

theorem dropWhile_of_ends (h : Ends tail) : tail.dropWhile (fun c => !isSeparator c) = tail := by
  cases tail with
  | nil => rfl
  | cons c rest => simp [h c rfl]

theorem exists_cut (base : List Char) : ∃ language tail, base = language ++ tail ∧
    (∀ c ∈ language, isSeparator c = false) ∧ Ends tail := by
  refine ⟨_, _, (List.takeWhile_append_dropWhile (p := fun c => !isSeparator c)).symm, ?_, ?_⟩
  · intro c hc
    simpa using List.all_eq_true.mp List.all_takeWhile c hc
  · intro c hc
    have hhead := List.head?_dropWhile_not (fun c => !isSeparator c) base
    rw [Option.mem_def.mp hc] at hhead
    simpa using hhead

theorem readBase?_append (hlanguage : ∀ c ∈ language, isSeparator c = false) (htail : Ends tail) :
    readBase? (language ++ tail) =
      if language.isEmpty || !language.all isLetter then none
      else if (countryIn tail).any (fun c => !c.all isTagPart) then none
      else some (of language (countryIn tail)) := by
  have hfront : ∀ c ∈ language, (!isSeparator c) = true := by simpa using hlanguage
  rw [readBase?]
  simp only [List.takeWhile_append_of_pos hfront, List.dropWhile_append_of_pos hfront,
    takeWhile_of_ends htail, dropWhile_of_ends htail, List.append_nil]
  rfl

theorem readBase?_append_eq_some (hlanguage : ∀ c ∈ language, isSeparator c = false)
    (htail : Ends tail) : readBase? (language ++ tail) = some l ↔
      language ≠ [] ∧ (∀ c ∈ language, isLetter c = true) ∧
        (∀ country, countryIn tail = some country → ∀ c ∈ country, isTagPart c = true) ∧
        l = of language (countryIn tail) := by
  have hparts : ((countryIn tail).any fun c => !c.all isTagPart) = false ↔
      ∀ country, countryIn tail = some country → ∀ c ∈ country, isTagPart c = true := by
    cases countryIn tail <;> simp
  have hletters : (language.isEmpty || !language.all isLetter) = false ↔
      language ≠ [] ∧ ∀ c ∈ language, isLetter c = true := by
    simp
  rw [readBase?_append hlanguage htail, ← hparts, ← and_assoc, ← hletters]
  cases language.isEmpty || !language.all isLetter with
  | true => simp
  | false => cases (countryIn tail).any fun c => !c.all isTagPart <;> simp [eq_comm]

end

variable {s : String} {l : Locale}

theorem read_eq (s : String) : read s =
    if isNeutral (baseOf s) then .ok english
    else match readBase? (baseOf s) with
      | some l => .ok l
      | none => .error (.invalidLocale (String.ofList (trim s.toList))) :=
  rfl

theorem read_eq_ok : read s = .ok l ↔ isNeutral (baseOf s) = true ∧ l = english ∨
    isNeutral (baseOf s) = false ∧ readBase? (baseOf s) = some l := by
  rw [read_eq]
  generalize baseOf s = base
  cases isNeutral base with
  | true => simp [eq_comm]
  | false => cases readBase? base <;> simp

structure Regular (l : Locale) : Prop where
  language_ne : l.language.toList ≠ []
  language : ∀ c ∈ l.language.toList, isLetter c = true ∧ c.toLower = c
  country_ne : ∀ country, l.country = some country → country.toList ≠ []
  country : ∀ country, l.country = some country →
    ∀ c ∈ country.toList, isTagPart c = true ∧ c.toUpper = c

theorem country_of {language : List Char} {country : Option (List Char)} {t : String}
    (h : (of language country).country = some t) :
    ∃ c s, country = some (c :: s) ∧ t = String.ofList (upperAscii (c :: s)) := by
  match country with
  | none => cases h
  | some [] => cases h
  | some (c :: s) => exact ⟨c, s, rfl, (Option.some.inj h).symm⟩

theorem regular_of {language : List Char} {country : Option (List Char)} (hne : language ≠ [])
    (hlanguage : ∀ c ∈ language, isLetter c = true)
    (hcountry : ∀ s, country = some s → ∀ c ∈ s, isTagPart c = true) :
    (of language country).Regular := by
  have hname : (of language country).language.toList = lowerAscii language :=
    String.toList_ofList
  refine ⟨?_, ?_, ?_, ?_⟩
  · rw [hname]
    simpa [lowerAscii] using hne
  · intro c hc
    rw [hname] at hc
    obtain ⟨d, hd, rfl⟩ := List.mem_map.mp hc
    exact isLetter_toLower (hlanguage d hd)
  · intro t ht
    obtain ⟨c, s, -, rfl⟩ := country_of ht
    simp [upperAscii]
  · intro t ht c hc
    obtain ⟨d, s, hs, rfl⟩ := country_of ht
    rw [String.toList_ofList] at hc
    obtain ⟨e, he, rfl⟩ := List.mem_map.mp hc
    exact isTagPart_toUpper (hcountry _ hs e he)

theorem regular_of_read (h : read s = .ok l) : l.Regular := by
  rcases read_eq_ok.mp h with ⟨-, rfl⟩ | ⟨-, hbase⟩
  · exact regular_of (by decide) (List.all_eq_true.mp rfl) nofun
  · obtain ⟨language, tail, hcut, hapart, htail⟩ := exists_cut (baseOf s)
    rw [hcut, readBase?_append_eq_some hapart htail] at hbase
    obtain ⟨hne, hlanguage, hcountry, rfl⟩ := hbase
    exact regular_of hne hlanguage hcountry

def tagTail (l : Locale) : List Char :=
  match l.country with
  | none => []
  | some country => '-' :: country.toList

theorem toList_tag (l : Locale) : l.tag.toList = l.language.toList ++ l.tagTail := by
  unfold tag tagTail
  cases l.country with
  | none => simp
  | some country => simp

theorem ends_tagTail (l : Locale) : Ends l.tagTail := by
  intro c hc
  unfold tagTail at hc
  cases hcountry : l.country with
  | none => simp [hcountry] at hc
  | some country =>
      rw [hcountry] at hc
      obtain rfl := Option.some.inj hc
      rfl

namespace Regular

variable (h : l.Regular)

include h

theorem language_apart : ∀ c ∈ l.language.toList, isSeparator c = false :=
  fun c hc => not_isSeparator_of_isTagPart (isTagPart_of_isLetter (h.language c hc).1)

theorem baseOf_tag : baseOf l.tag = l.language.toList ++ l.tagTail := by
  have hplain : ∀ c ∈ l.language.toList ++ l.tagTail, isBlank c = false ∧
      isSuffixMark c = false := by
    have hpart {c : Char} (hc : isTagPart c = true) : isBlank c = false ∧ isSuffixMark c = false :=
      ⟨not_isBlank_of_isTagPart hc, not_isSuffixMark_of_isTagPart hc⟩
    rw [List.forall_mem_append]
    refine ⟨fun c hc => hpart (isTagPart_of_isLetter (h.language c hc).1), fun c hc => ?_⟩
    unfold tagTail at hc
    cases hcountry : l.country with
    | none => simp [hcountry] at hc
    | some country =>
        rw [hcountry] at hc
        rcases List.mem_cons.mp hc with rfl | hc
        · exact ⟨rfl, rfl⟩
        · exact hpart (h.country country hcountry c hc).1
  rw [baseOf, toList_tag, trim_eq_self fun c hc => (hplain c hc).1]
  refine List.takeWhile_eq_self_iff.mpr fun c hc => ?_
  simpa using (hplain c hc).2

theorem countryIn_tagTail : countryIn l.tagTail = l.country.map String.toList := by
  unfold tagTail
  cases hcountry : l.country with
  | none => rfl
  | some country =>
      refine congrArg some (List.takeWhile_eq_self_iff.mpr fun c hc => ?_)
      simpa using not_isSeparator_of_isTagPart (h.country country hcountry c hc).1

theorem of_parts : of l.language.toList (l.country.map String.toList) = l := by
  have hlanguage := lowerAscii_eq_self fun c hc => (h.language c hc).2
  obtain ⟨language, country⟩ := l
  cases country with
  | none => simp [of, hlanguage]
  | some country =>
      have hcountry := upperAscii_eq_self fun c hc => (h.country country rfl c hc).2
      obtain ⟨c, s, hs⟩ := List.exists_cons_of_ne_nil (h.country_ne country rfl)
      have hback := String.ofList_toList (s := country)
      rw [hs] at hcountry hback
      simp [of, hlanguage, hs, hcountry, hback]

theorem read_tag : read l.tag = .ok (if isNeutral l.tag.toList then english else l) := by
  have hbase : readBase? (baseOf l.tag) = some l := by
    rw [h.baseOf_tag, readBase?_append_eq_some h.language_apart l.ends_tagTail]
    refine ⟨h.language_ne, fun c hc => (h.language c hc).1, ?_, ?_⟩
    · rw [h.countryIn_tagTail]
      intro t ht c hc
      obtain ⟨country, hcountry, rfl⟩ := Option.map_eq_some_iff.mp ht
      exact (h.country country hcountry c hc).1
    · rw [h.countryIn_tagTail, h.of_parts]
  rw [read_eq, hbase, h.baseOf_tag, ← toList_tag]
  split <;> rfl

end Regular

/-- A text with a name of the neutral locale for its language and an empty country behind it. -/
def HidesNeutral (s : String) : Prop :=
  ∃ name mark rest, baseOf s = name ++ mark :: rest ∧ isNeutral name = true ∧
    isSeparator mark = true ∧ Ends rest

theorem tag_of_country_none {language : List Char} {country : Option (List Char)}
    (h : (of language country).country = none) :
    (of language country).tag.toList = lowerAscii language := by
  rw [toList_tag, tagTail, h, List.append_nil]
  exact String.toList_ofList

theorem country_none_of_isNeutral (h : isNeutral l.tag.toList = true) : l.country = none := by
  cases hcountry : l.country with
  | none => rfl
  | some country =>
      have hdash : '-' ∈ l.tag.toList := by simp [toList_tag, tagTail, hcountry]
      exact absurd (not_isSeparator_of_isNeutral h '-' hdash) (by decide)

theorem ends_of_country_none {language rest : List Char} {mark : Char}
    (h : (of language (countryIn (mark :: rest))).country = none) : Ends rest := by
  cases rest with
  | nil => exact nofun
  | cons first rest =>
      rintro c ⟨⟩
      cases hfirst : isSeparator first with
      | true => rfl
      | false => simp [countryIn, of, hfirst] at h

theorem isNeutral_tag_iff (h : read s = .ok l) :
    isNeutral l.tag.toList = true ↔ HidesNeutral s := by
  rcases read_eq_ok.mp h with ⟨hbase, rfl⟩ | ⟨hbase, hl⟩
  · refine iff_of_false (by decide) ?_
    rintro ⟨name, mark, rest, hs, -, hmark, -⟩
    have hmem : mark ∈ baseOf s := by simp [hs]
    rw [not_isSeparator_of_isNeutral hbase mark hmem] at hmark
    cases hmark
  · constructor
    · intro hneutral
      obtain ⟨language, tail, hcut, hapart, htail⟩ := exists_cut (baseOf s)
      rw [hcut, readBase?_append_eq_some hapart htail] at hl
      obtain ⟨-, hletters, -, rfl⟩ := hl
      have hnone := country_none_of_isNeutral hneutral
      have hname : isNeutral language = true := by
        rwa [tag_of_country_none hnone, isNeutral_lowerAscii language hletters] at hneutral
      cases tail with
      | nil => simp [hcut, hname] at hbase
      | cons mark rest =>
          exact ⟨language, mark, rest, hcut, hname, htail mark rfl, ends_of_country_none hnone⟩
    · rintro ⟨name, mark, rest, hcut, hname, hmark, hrest⟩
      have htail : Ends (mark :: rest) := by
        rintro c ⟨⟩
        exact hmark
      have hcountry : countryIn (mark :: rest) = some [] := congrArg some (takeWhile_of_ends hrest)
      rw [hcut, readBase?_append_eq_some (not_isSeparator_of_isNeutral hname) htail, hcountry] at hl
      obtain ⟨-, hletters, -, rfl⟩ := hl
      rw [tag_of_country_none rfl, isNeutral_lowerAscii name hletters]
      exact hname

theorem tags_read_back (h : read s = .ok l) :
    (read l.tag = .ok l ↔ ¬HidesNeutral s) ∧
      ((read l.tag).map tag = .ok l.tag ↔ ¬HidesNeutral s) ∧
      (HidesNeutral s → read l.tag = .ok english) := by
  rw [← isNeutral_tag_iff h, (regular_of_read h).read_tag]
  cases hneutral : isNeutral l.tag.toList with
  | false => simp [Except.map]
  | true =>
      have hne : english.tag ≠ l.tag := by
        intro htag
        rw [← htag] at hneutral
        exact absurd hneutral (by decide)
      have hl : english ≠ l := fun heq => hne (congrArg tag heq)
      simp [Except.map, hne, hl]

theorem tags_read_back_of_turkish :
    read " tr_tr.UTF-8@euro " = .ok ⟨"tr", some "TR"⟩ ∧ ¬HidesNeutral " tr_tr.UTF-8@euro " ∧
      (read "tr-TR").map tag = .ok "tr-TR" := by
  have hread : read " tr_tr.UTF-8@euro " = .ok ⟨"tr", some "TR"⟩ := by decide
  obtain ⟨hback, hfixed, -⟩ := tags_read_back hread
  have hplain := hback.mp (by decide)
  exact ⟨hread, hplain, hfixed.mpr hplain⟩

theorem not_read_back_of_emptyCountry :
    read "C-" = .ok ⟨"c", none⟩ ∧ (⟨"c", none⟩ : Locale).tag = "c" ∧ read "c" = .ok english ∧
      english ≠ ⟨"c", none⟩ := by
  decide

end Locale

end RecordQuery
