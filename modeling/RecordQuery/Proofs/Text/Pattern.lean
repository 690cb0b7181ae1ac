import RecordQuery.Predicate.Like
import RecordQuery.Proofs.Text.Folding
import RecordQuery.Proofs.Text.Words
import RecordQuery.TextPattern

namespace RecordQuery

open RecordQuery.Text

namespace Like

variable {escape : Option Char} {c : Char}

theorem tokens?_escaped (h : escape = some c) (d : Char) (rest : List Char) :
    tokens? escape (c :: d :: rest) = (tokens? escape rest).map (.exactly d :: ·) := by
  rw [tokens?, if_pos h]

theorem tokens?_plain (h : escape ≠ some c) (rest : List Char) :
    tokens? escape (c :: rest) = (tokens? escape rest).map (plainToken c :: ·) := by
  cases rest with
  | nil => simp [tokens?, h]
  | cons d rest => rw [tokens?, if_neg h]

theorem plainToken_exactly (hrun : c ≠ '%') (hone : c ≠ '_') : plainToken c = .exactly c := by
  rw [plainToken, if_neg hrun, if_neg hone]

theorem eq_of_plainToken {d : Char} (h : plainToken d = .exactly c) : d = c := by
  unfold plainToken at h
  split at h
  · cases h
  · split at h
    · cases h
    · exact LikeToken.exactly.inj h

theorem mem_of_exactly {pattern : List Char} {ts : List LikeToken}
    (h : tokens? escape pattern = some ts) (hc : .exactly c ∈ ts) : c ∈ pattern := by
  induction pattern using tokens?.induct escape generalizing ts with
  | case1 =>
      obtain rfl := Option.some.inj h
      cases hc
  | case2 e he =>
      rw [tokens?, if_pos he] at h
      cases h
  | case3 d he =>
      rw [tokens?, if_neg he] at h
      obtain rfl := Option.some.inj h
      rw [eq_of_plainToken (List.mem_singleton.mp hc).symm]
      exact List.mem_singleton_self _
  | case4 e d rest he ih =>
      rw [tokens?_escaped he] at h
      obtain ⟨us, hus, rfl⟩ := Option.map_eq_some_iff.mp h
      rcases List.mem_cons.mp hc with hc | hc
      · simp [LikeToken.exactly.inj hc]
      · exact List.mem_cons_of_mem _ (List.mem_cons_of_mem _ (ih hus hc))
  | case5 d e rest he ih =>
      rw [tokens?_plain he] at h
      obtain ⟨us, hus, rfl⟩ := Option.map_eq_some_iff.mp h
      rcases List.mem_cons.mp hc with hc | hc
      · rw [eq_of_plainToken hc.symm]
        exact List.mem_cons_self ..
      · exact List.mem_cons_of_mem _ (ih hus hc)

end Like

namespace Settings

variable {escape : Char}

theorem ne_percent_of_checkEscape (h : checkEscape escape = .ok ()) : escape ≠ '%' := by
  rintro rfl
  cases h

theorem ne_underscore_of_checkEscape (h : checkEscape escape = .ok ()) : escape ≠ '_' := by
  rintro rfl
  cases h

theorem not_isBlank_of_checkEscape (h : checkEscape escape = .ok ()) :
    isBlank escape = false := by
  unfold checkEscape at h
  split at h
  · cases h
  · split at h
    · cases h
    · rename_i hblank
      exact Bool.eq_false_iff.mpr hblank

theorem small_of_checkEscape (h : checkEscape escape = .ok ()) : Small escape := by
  unfold checkEscape at h
  split at h
  · cases h
  · split at h
    · cases h
    · split at h
      · cases h
      · rename_i hsmall
        exact not_ne_iff.mp hsmall

theorem checkEscape_of_check {settings : Settings} (h : settings.check = .ok ()) :
    checkEscape settings.escape = .ok () := by
  unfold check at h
  split at h
  · cases h
  · exact h

end Settings

theorem Text.mem_of_mem_words {s w : List Char} {c : Char} (hw : w ∈ words s) (hc : c ∈ w) :
    c ∈ s := by
  induction s generalizing w with
  | nil => cases hw
  | cons d rest ih =>
      rw [words] at hw
      split at hw
      · exact List.mem_cons_of_mem _ (ih hw hc)
      · split at hw
        · rcases List.mem_cons.mp hw with rfl | hw
          · exact List.mem_cons.mpr (.inl (List.mem_singleton.mp hc))
          · exact List.mem_cons_of_mem _ (ih hw hc)
        · rcases mem_lengthen hw with ⟨v, rfl, hv⟩ | hw
          · rcases List.mem_cons.mp hc with rfl | hc
            · exact List.mem_cons_self ..
            · rcases hv with rfl | hv
              · cases hc
              · exact List.mem_cons_of_mem _ (ih hv hc)
          · exact List.mem_cons_of_mem _ (ih hw hc)

namespace TextPattern

variable {escape : Char}

def escaped (escape c : Char) : List Char :=
  if c = escape ∨ c = '%' ∨ c = '_' then [escape, c] else [c]

def ofWords (escape : Char) (s : List Char) : List Char :=
  ['%'].intercalate ((words s).map (·.flatMap (escaped escape)))

theorem replaced_of_not_mem {c : Char} (image : List Char) {s : List Char} (h : c ∉ s) :
    replaced c image s = s := by
  induction s with
  | nil => rfl
  | cons d rest ih =>
      have hd : d ≠ c := fun hd => h (List.mem_cons.mpr (.inl hd.symm))
      rw [replaced, List.flatMap_cons, if_neg hd]
      exact congrArg (d :: ·) (ih fun hrest => h (List.mem_cons_of_mem _ hrest))

theorem replaced_append (c : Char) (image s t : List Char) :
    replaced c image (s ++ t) = replaced c image s ++ replaced c image t :=
  List.flatMap_append

theorem replaced_intercalate {image : List Char} {ws : List (List Char)}
    (h : ∀ w ∈ ws, ' ' ∉ w) :
    replaced ' ' image ([' '].intercalate ws) = image.intercalate ws := by
  induction ws with
  | nil => rfl
  | cons w rest ih =>
      have hw := replaced_of_not_mem image (h w (List.mem_cons_self ..))
      have ih := ih fun v hv => h v (List.mem_cons_of_mem _ hv)
      cases rest with
      | nil => simpa using hw
      | cons v rest =>
          have hblank : replaced ' ' image [' '] = image := by simp [replaced]
          rw [List.intercalate_cons_cons, List.intercalate_cons_cons, replaced_append,
            replaced_append, hw, hblank, ih]

section

variable (hcheck : Settings.checkEscape escape = .ok ())

include hcheck

theorem replaced_thrice (s : List Char) :
    replaced '_' [escape, '_'] (replaced '%' [escape, '%'] (replaced escape [escape, escape] s)) =
      s.flatMap (escaped escape) := by
  have hrun := Settings.ne_percent_of_checkEscape hcheck
  have hone := Settings.ne_underscore_of_checkEscape hcheck
  rw [replaced, replaced, replaced, List.flatMap_assoc, List.flatMap_assoc]
  refine congrArg (s.flatMap ·) (funext fun c => ?_)
  by_cases hc : c = escape
  · subst hc
    simp [escaped, hrun, hone]
  · by_cases hp : c = '%'
    · subst hp
      simp [escaped, hc, hone]
    · by_cases hu : c = '_'
      · subst hu
        simp [escaped, hc]
      · simp [escaped, hc, hp, hu]

theorem flatMap_intercalate (ws : List (List Char)) :
    ([' '].intercalate ws).flatMap (escaped escape) =
      [' '].intercalate (ws.map (·.flatMap (escaped escape))) := by
  have hblank : escaped escape ' ' = [' '] := by
    have hescape : ' ' ≠ escape := by
      rintro rfl
      cases Settings.not_isBlank_of_checkEscape hcheck
    simp [escaped, hescape]
  induction ws with
  | nil => rfl
  | cons w rest ih =>
      cases rest with
      | nil => simp
      | cons v rest =>
          rw [List.intercalate_cons_cons, List.flatMap_append, List.flatMap_append, ih,
            List.flatMap_singleton, hblank]
          simp only [List.map_cons, List.intercalate_cons_cons]

theorem escaped_word {w : List Char} (h : w ≠ [] ∧ ∀ c ∈ w, isBlank c = false) :
    w.flatMap (escaped escape) ≠ [] ∧ ∀ c ∈ w.flatMap (escaped escape), isBlank c = false := by
  obtain ⟨hne, hw⟩ := h
  constructor
  · obtain ⟨c, rest, rfl⟩ := List.exists_cons_of_ne_nil hne
    rw [List.flatMap_cons, escaped]
    split <;> simp
  · intro d hd
    obtain ⟨c, hc, hd⟩ := List.mem_flatMap.mp hd
    unfold escaped at hd
    split at hd
    · rcases List.mem_cons.mp hd with rfl | hd
      · exact Settings.not_isBlank_of_checkEscape hcheck
      · exact List.mem_singleton.mp hd ▸ hw c hc
    · exact List.mem_singleton.mp hd ▸ hw c hc

theorem words_escapedTerms (s : List Char) :
    words (escapedTerms escape s) = (words s).map (·.flatMap (escaped escape)) := by
  rw [escapedTerms, replaced_thrice hcheck, collapsed, flatMap_intercalate hcheck]
  refine words_intercalate fun w hw => ?_
  obtain ⟨v, hv, rfl⟩ := List.mem_map.mp hw
  exact escaped_word hcheck (mem_words_not_blank hv)

theorem prepared_eq_ofWords (s : List Char) : prepared escape s = ofWords escape s := by
  rw [prepared, collapsed, words_escapedTerms hcheck, words_trim]
  refine replaced_intercalate fun w hw hblank => ?_
  obtain ⟨v, hv, rfl⟩ := List.mem_map.mp hw
  cases (escaped_word hcheck (mem_words_not_blank hv)).2 ' ' hblank

end

theorem tokens?_word (w rest : List Char) :
    Like.tokens? (some escape) (w.flatMap (escaped escape) ++ rest) =
      (Like.tokens? (some escape) rest).map (w.map .exactly ++ ·) := by
  induction w with
  | nil => simp
  | cons c w ih =>
      have hmap : ∀ o : Option (List LikeToken),
          (o.map (w.map .exactly ++ ·)).map (.exactly c :: ·) =
          o.map ((c :: w).map .exactly ++ ·) := by
        intro o
        cases o <;> rfl
      rw [List.flatMap_cons, List.append_assoc, escaped]
      split
      · rw [List.cons_append, List.cons_append, List.nil_append, Like.tokens?_escaped rfl, ih, hmap]
      · rename_i hc
        simp only [not_or] at hc
        have hne : some escape ≠ some c := fun h => hc.1 (Option.some.inj h).symm
        rw [List.cons_append, List.nil_append, Like.tokens?_plain hne,
          Like.plainToken_exactly hc.2.1 hc.2.2, ih, hmap]

theorem tokens?_percent (hrun : escape ≠ '%') (rest : List Char) :
    Like.tokens? (some escape) ('%' :: rest) =
      (Like.tokens? (some escape) rest).map (.anyRun :: ·) :=
  Like.tokens?_plain (fun h => hrun (Option.some.inj h)) rest

def wordTokens (ws : List (List Char)) : List LikeToken :=
  [.anyRun].intercalate (ws.map (·.map .exactly))

theorem tokens?_ofWords (hrun : escape ≠ '%') (s rest : List Char) :
    Like.tokens? (some escape) (ofWords escape s ++ rest) =
      (Like.tokens? (some escape) rest).map (wordTokens (words s) ++ ·) := by
  unfold ofWords wordTokens
  induction words s with
  | nil => simp
  | cons w ws ih =>
      cases ws with
      | nil => simpa using tokens?_word w rest
      | cons v vs =>
          simp only [List.map_cons, List.intercalate_cons_cons, List.append_assoc,
            List.cons_append, List.nil_append] at ih ⊢
          rw [tokens?_word, tokens?_percent hrun, ih, Option.map_map, Option.map_map]
          refine congrArg (Option.map · _) (funext fun ts => ?_)
          simp

theorem mem_escaped {c d : Char} (h : d ∈ escaped escape c) : d = escape ∨ d = c := by
  unfold escaped at h
  split at h
  · simpa using h
  · exact .inr (List.mem_singleton.mp h)

theorem mem_ofWords {s : List Char} {d : Char} (h : d ∈ ofWords escape s) :
    d = '%' ∨ d = escape ∨ d ∈ s := by
  have hparts : ∀ ws : List (List Char),
      d ∈ ['%'].intercalate (ws.map (·.flatMap (escaped escape))) →
      d = '%' ∨ d = escape ∨ ∃ w ∈ ws, d ∈ w := by
    intro ws
    induction ws with
    | nil =>
        intro h
        cases h
    | cons w ws ih =>
        have hword : d ∈ w.flatMap (escaped escape) → d = '%' ∨ d = escape ∨
            ∃ w' ∈ w :: ws, d ∈ w' := by
          intro h
          obtain ⟨c, hc, hd⟩ := List.mem_flatMap.mp h
          rcases mem_escaped hd with rfl | rfl
          · exact .inr (.inl rfl)
          · exact .inr (.inr ⟨w, List.mem_cons_self .., hc⟩)
        cases ws with
        | nil => simpa using hword
        | cons v vs =>
            intro h
            simp only [List.map_cons, List.intercalate_cons_cons, List.mem_append,
              List.mem_singleton] at h ih
            rcases h with (h | h) | h
            · exact hword h
            · exact .inl h
            · rcases ih h with h | h | ⟨w', hw', hd⟩
              · exact .inl h
              · exact .inr (.inl h)
              · exact .inr (.inr ⟨w', List.mem_cons_of_mem _ hw', hd⟩)
  rcases hparts (words s) h with h | h | ⟨w, hw, hd⟩
  · exact .inl h
  · exact .inr (.inl h)
  · exact .inr (.inr (mem_of_mem_words hw hd))

section

variable {pre post : List Char} (hpre : pre = [] ∨ pre = ['%']) (hpost : post = [] ∨ post = ['%'])

include hpre hpost

theorem tokens?_frame (hrun : escape ≠ '%') (s : List Char) :
    Like.tokens? (some escape) (pre ++ ofWords escape s ++ post) =
      some (pre.map Like.plainToken ++ (wordTokens (words s) ++ post.map Like.plainToken)) := by
  have hlast : Like.tokens? (some escape) post = some (post.map Like.plainToken) := by
    rcases hpost with rfl | rfl
    · rfl
    · exact tokens?_percent hrun []
  have hwords : Like.tokens? (some escape) (ofWords escape s ++ post) =
      some (wordTokens (words s) ++ post.map Like.plainToken) := by
    rw [tokens?_ofWords hrun, hlast]
    rfl
  rw [List.append_assoc]
  rcases hpre with rfl | rfl
  · exact hwords
  · rw [List.singleton_append, tokens?_percent hrun, hwords]
    rfl

theorem mem_frame {s : List Char} {c : Char} (h : c ∈ pre ++ ofWords escape s ++ post) :
    c = '%' ∨ c = escape ∨ c ∈ s := by
  have hpercent : ∀ {part : List Char}, part = [] ∨ part = ['%'] → c ∈ part → c = '%' := by
    rintro part (rfl | rfl) hc
    · cases hc
    · exact List.mem_singleton.mp hc
  rcases List.mem_append.mp h with h | h
  · rcases List.mem_append.mp h with h | h
    · exact .inl (hpercent hpre h)
    · exact mem_ofWords h
  · exact .inl (hpercent hpost h)

theorem small_frame (hcheck : Settings.checkEscape escape = .ok ()) (locale : Locale)
    (text : List Char) : ∀ c ∈ pre ++ ofWords escape (locale.lowerChars text) ++ post, Small c := by
  intro c hc
  rcases mem_frame hpre hpost hc with rfl | rfl | hc
  · decide
  · exact Settings.small_of_checkEscape hcheck
  · exact Locale.small_of_mem_lowerChars hc

end

end TextPattern

end RecordQuery
