import RecordQuery.Proofs.Builder.Accepts
import RecordQuery.Proofs.Text.Context
import RecordQuery.Proofs.Text.Search

namespace RecordQuery

open RecordQuery.Text

namespace TextPattern

theorem cons_weave (c : Char) (w last : List Char) (ws inner : List (List Char)) :
    c :: weave [] (w :: ws) inner last = weave [] ((c :: w) :: ws) inner last := by
  cases inner <;> rfl

theorem exists_weave {s : List Char} (h : words s ≠ []) :
    ∃ first inner last, inner.length + 1 = (words s).length ∧ allBlank first = true ∧
      allBlank last = true ∧ s = weave first (words s) inner last := by
  induction s with
  | nil => exact absurd rfl h
  | cons c rest ih =>
      by_cases hc : isBlank c = true
      · rw [words_blank hc] at h ⊢
        obtain ⟨first, inner, last, hlength, hfirst, hlast, hrest⟩ := ih h
        refine ⟨c :: first, inner, last, hlength, ?_, hlast, congrArg (c :: ·) hrest⟩
        rwa [allBlank, List.all_cons, hc, Bool.true_and]
      · by_cases hrest : allBlank rest = true
        · have hwords : words (c :: rest) = [[c]] := by
            rw [words, if_neg hc, if_pos (startsBlank_of_allBlank hrest),
              (words_eq_nil_iff rest).mpr hrest]
          rw [hwords]
          exact ⟨[], [], rest, rfl, rfl, hrest, by simp [weave]⟩
        · have hne : words rest ≠ [] := fun hnil => hrest ((words_eq_nil_iff rest).mp hnil)
          obtain ⟨first, inner, last, hlength, hfirst, hlast, hsplit⟩ := ih hne
          by_cases hstarts : startsBlank rest = true
          · rw [words, if_neg hc, if_pos hstarts]
            exact ⟨[], first :: inner, last, congrArg (· + 1) hlength, rfl, hlast,
              congrArg (c :: ·) hsplit⟩
          · obtain ⟨w, ws, hwords⟩ := List.exists_cons_of_ne_nil hne
            rw [words, if_neg hc, if_neg hstarts, hwords, lengthen]
            rw [hwords] at hlength hsplit
            -- No blank stands in front of the first word, which the character belongs to.
            obtain rfl : first = [] := by
              rw [hsplit, weave, Bool.not_eq_true] at hstarts
              exact eq_nil_of_startsBlank hfirst hstarts
            exact ⟨[], inner, last, hlength, rfl, hlast,
              (congrArg (c :: ·) hsplit).trans (cons_weave c w last ws inner)⟩

theorem weave_append {first last : List Char} {ws inner : List (List Char)}
    (hlength : inner.length + 1 = ws.length) (t : List Char) :
    weave first ws inner last ++ t = weave first ws inner (last ++ t) := by
  have htail : ∀ (ws inner : List (List Char)), inner.length + 1 = ws.length →
      (List.zipWith (· ++ ·) ws (inner ++ [last])).flatten ++ t =
        (List.zipWith (· ++ ·) ws (inner ++ [last ++ t])).flatten := by
    intro ws
    induction ws with
    | nil => exact fun inner h => absurd h (Nat.succ_ne_zero _)
    | cons w ws ih =>
        intro inner h
        cases inner with
        | nil =>
            obtain rfl : ws = [] := List.length_eq_zero_iff.mp (Nat.succ.inj h).symm
            simp
        | cons run inner => simp [ih inner (Nat.succ.inj h)]
  rw [weave, weave, List.append_assoc, htail ws inner hlength]

theorem exists_weave_at_ends {s : List Char} (h : words s ≠ []) :
    ∃ first inner last, inner.length + 1 = (words s).length ∧
      s = weave first (words s) inner last ∧ (startsBlank s = false → first = []) ∧
      (startsBlank s.reverse = false → last = []) := by
  obtain ⟨first, inner, last, hlength, hfirst, hlast, hsplit⟩ := exists_weave h
  refine ⟨first, inner, last, hlength, hsplit, fun hs => ?_, fun hs => ?_⟩
  · rw [hsplit, weave] at hs
    exact eq_nil_of_startsBlank hfirst hs
  · have hend : weave first (words s) inner [] ++ last = weave first (words s) inner last :=
      weave_append hlength last
    rw [hsplit, ← hend, List.reverse_append] at hs
    refine List.reverse_eq_nil_iff.mp (eq_nil_of_startsBlank ?_ hs)
    rwa [allBlank, List.all_reverse]

end TextPattern

namespace Locale

variable {l : Locale} {pre part post : List Char}

/-- A part of a text gets the small letters that the language gives it: it holds no letter of
Turkish if the language has these, and each sigma of it is the last letter of a word either way or
neither. -/
structure Spells (l : Locale) (pre part post : List Char) : Prop where
  letters : l.isTurkic = true → 'I' ∉ part ∧ '\u0130' ∉ part
  sigmas : ∀ u v, part = u ++ capitalSigma :: v →
    lowerAt (u.reverse ++ pre.reverse) capitalSigma (v ++ post) = l.foldAt u.reverse capitalSigma v

theorem Spells.imagesIn_eq (h : l.Spells pre part post) :
    imagesIn lowerAt pre.reverse part post = l.lowerChars part := by
  rw [lowerChars_eq_imagesIn]
  refine imagesIn_congr fun u c v hsplit => ?_
  rw [List.append_nil, List.append_nil]
  by_cases hsigma : c = capitalSigma
  · subst hsigma
    exact h.sigmas u v hsplit
  · rw [lowerAt, if_neg hsigma, foldAt, lowerAt, if_neg hsigma]
    cases hturkic : l.isTurkic with
    | false => rfl
    | true =>
        obtain ⟨hdotless, hdotted⟩ := h.letters hturkic
        have hmem : c ∈ part := hsplit ▸ List.mem_append_right u (List.mem_cons_self ..)
        have hne : c ≠ 'I' := by
          rintro rfl
          exact hdotless hmem
        have hcode : c.toNat ≠ 0x130 := by
          intro hcode
          rw [← Char.ofNat_toNat c, hcode] at hmem
          exact hdotted hmem
        rw [if_pos rfl, lowerTurkicOf, if_neg hne, if_neg hcode]

theorem Spells.exists_lower (h : l.Spells pre part post) :
    ∃ front back, Text.lower (pre ++ part ++ post) = front ++ l.lowerChars part ++ back ∧
      (pre = [] → front = []) ∧ (post = [] → back = []) := by
  refine ⟨imagesIn lowerAt [] pre (part ++ post),
    imagesIn lowerAt (part.reverse ++ pre.reverse) post [], ?_, ?_, ?_⟩
  · rw [Text.lower, lowerFrom_eq_imagesIn, List.append_assoc, imagesIn_append, imagesIn_append]
    simp only [List.append_nil]
    rw [h.imagesIn_eq, List.append_assoc]
  · rintro rfl
    rfl
  · rintro rfl
    rfl

end Locale

namespace Builder

open RecordQuery.TextPattern

variable {b : Builder} {field text : String} {part : List Char}
  {Frame Frame' : List Char → List Char → Prop}

/-- What is added to a builder is one predicate, and it is true of each row that has the part in its
column, with texts around it as `Frame` tells, if the column spells the part as the language does.
-/
def FindsText (b : Builder) (field : String) (added : Except ArgumentFault Builder)
    (part : List Char) (Frame : List Char → List Char → Prop) : Prop :=
  ∃ p, added = .ok (b.push p) ∧ ∀ params row column pre post,
    Row.value row field = .text column → column.toList = pre ++ part ++ post → Frame pre post →
      b.locale.Spells pre part post → p.evaluate params row = .ok .yes

theorem FindsText.imp {added : Except ArgumentFault Builder}
    (h : b.FindsText field added part Frame)
    (hframe : ∀ pre post, Frame' pre post → Frame pre post) :
    b.FindsText field added part Frame' := by
  obtain ⟨p, hadded, hfinds⟩ := h
  exact ⟨p, hadded, fun params row column pre post hvalue hcolumn hpart =>
    hfinds params row column pre post hvalue hcolumn (hframe pre post hpart)⟩

theorem evaluate_like_lower {params : Parameters} {row : Row} {pattern column : String}
    {escape : Char} {tokens : List LikeToken}
    (hread : PatternTable.tokens? (pattern, some escape) = .ok tokens)
    (hvalue : Row.value row field = .text column)
    (hfits : Like.fits Like.exact tokens (Text.lower column.toList) = true) :
    (Predicate.like (.lower (.field field)) pattern (some escape)).evaluate params row =
      .ok .yes := by
  have htokens : Like.tokens? (some escape) pattern.toList = some tokens := by
    unfold PatternTable.tokens? at hread
    split at hread
    · rename_i ts hts
      rw [hts, Except.ok.inj hread]
    · cases hread
  have hclosed : (Predicate.like (.lower (.field field)) pattern (some escape)).Closed params :=
    ⟨tokens, htokens⟩
  rw [Predicate.evaluate_eq row hclosed, Predicate.meaning, htokens, Expr.value, Expr.value, hvalue]
  simp only [Value.likeText, String.toList_ofList, hfits]
  rfl

theorem findsText_of_edges (shape : List Char → List Char) {pre post : List Char}
    (hpre : pre = [] ∨ pre = ['%']) (hpost : post = [] ∨ post = ['%']) (hedge : '%' ∈ pre ++ post)
    (hshape : ∀ p, shape p = pre ++ p ++ post)
    (hcheck : Settings.checkEscape b.settings.escape = .ok ())
    (htext : allBlank text.toList = false)
    (hwords : words (b.locale.lowerChars part) = words (b.locale.lowerChars text.toList))
    (hfront : pre = [] → startsBlank part = false)
    (hback : post = [] → startsBlank part.reverse = false) :
    b.FindsText field (b.likeMade field (build shape) text) part fun first last =>
      OpenAt pre first ∧ OpenAt post last := by
  obtain ⟨pattern, tokens, hmake, hread, hlike, hfits⟩ :=
    finds_build shape hpre hpost hedge hshape hcheck htext b.locale
  refine ⟨_, by rw [likeMade, hmake]; exact hlike b field, ?_⟩
  rintro params row column before after hvalue hcolumn ⟨hbefore, hafter⟩ hspells
  refine evaluate_like_lower hread hvalue ((hfits _).mpr ?_)
  obtain ⟨front, back, hlower, hfrontNil, hbackNil⟩ := hspells.exists_lower
  have hsome : words (b.locale.lowerChars part) ≠ [] := by
    rw [hwords, Ne, words_eq_nil_iff, Locale.lowerChars_not_blank htext]
    exact Bool.false_ne_true
  obtain ⟨first, inner, last, hlength, hweave, hfirst, hlast⟩ := exists_weave_at_ends hsome
  rw [← hwords]
  refine ⟨front ++ first, inner, last ++ back, hlength, ⟨fun hclosed => ?_, fun hclosed => ?_⟩, ?_⟩
  · rw [hfrontNil (hbefore hclosed), hfirst (Locale.startsBlank_lowerChars (hfront hclosed))]
    rfl
  · rw [hbackNil (hafter hclosed), hlast (Locale.startsBlank_reverse_lowerChars (hback hclosed))]
    rfl
  · rw [hcolumn, hlower, ← weave_append hlength]
    conv_lhs => rw [hweave]
    simp only [weave, List.append_assoc]

theorem search_finds (hcheck : b.settings.check = .ok ()) (htext : allBlank text.toList = false)
    (field : String) :
    b.FindsText field (b.likeText field text) text.toList (fun _ _ => True) ∧
      b.FindsText field (b.add field (some ⟨some text, .startsWith⟩)) (trim text.toList)
        (fun pre _ => pre = []) ∧
      b.FindsText field (b.add field (some ⟨some text, .endsWith⟩)) (trim text.toList)
        (fun _ post => post = []) := by
  have hescape := Settings.checkEscape_of_check hcheck
  have hwords := b.locale.words_lowerChars_trim text.toList
  have hopen : ∀ part, OpenAt ['%'] part := fun part h => absurd h (List.cons_ne_nil _ _)
  have hnot : ['%'] ≠ [] := List.cons_ne_nil _ _
  have hsome : ¬allBlank text.toList = true := Bool.eq_false_iff.mp htext
  refine ⟨?_, ?_, ?_⟩
  · rw [likeText, if_neg hsome]
    refine (findsText_of_edges _ (.inr rfl) (.inr rfl) (by decide) (fun _ => rfl) hescape htext rfl
      (fun h => absurd h hnot) fun h => absurd h hnot).imp ?_
    exact fun pre post _ => ⟨hopen pre, hopen post⟩
  · rw [add, if_neg hsome, match?]
    refine (findsText_of_edges _ (.inl rfl) (.inr rfl) (by decide) (fun _ => rfl) hescape htext
      hwords (fun _ => startsBlank_trim htext) fun h => absurd h hnot).imp ?_
    exact fun pre post h => ⟨fun _ => h, hopen post⟩
  · rw [add, if_neg hsome, match?]
    refine (findsText_of_edges _ (.inr rfl) (.inl rfl) (by decide)
      (fun p => (List.append_nil ('%' :: p)).symm) hescape htext hwords
      (fun h => absurd h hnot) fun _ => startsBlank_reverse_trim htext).imp ?_
    exact fun pre post h => ⟨hopen pre, fun _ => h⟩

theorem search_finds_sigma : (Builder.mk .english {} .empty).settings.check = .ok () ∧
    allBlank "\u0391\u03A3 ".toList = false ∧
    ∃ p, (Builder.mk .english {} .empty).add "name" (some ⟨some "\u0391\u03A3 ", .startsWith⟩) =
        .ok ((Builder.mk .english {} .empty).push p) ∧
      p.evaluate .empty (.ofList [("name", .text "\u0391\u03A3-\u0391")]) = .ok .yes := by
  have hcheck : (Builder.mk .english {} .empty).settings.check = .ok () := by decide +kernel
  have htext : allBlank "\u0391\u03A3 ".toList = false := by decide +kernel
  obtain ⟨p, hadd, hfinds⟩ := (search_finds hcheck htext "name").2.1
  refine ⟨hcheck, htext, p, hadd, hfinds _ _ "\u0391\u03A3-\u0391" [] "-\u0391".toList
    (by decide +kernel) (by decide +kernel) rfl ⟨by decide +kernel, ?_⟩⟩
  have htrim : trim "\u0391\u03A3 ".toList = ['\u0391', '\u03A3'] := by decide +kernel
  rw [htrim]
  intro u v hsplit
  match u, hsplit with
  | [], hsplit => exact absurd (List.cons.inj hsplit).1 (by decide)
  | [c], hsplit =>
      obtain ⟨rfl, hrest⟩ := List.cons.inj hsplit
      obtain rfl := (List.cons.inj hrest).2
      decide +kernel
  | c :: d :: u, hsplit => simp at hsplit

theorem not_findsText_blank : (Builder.mk .english {} .empty).settings.check = .ok () ∧
    allBlank " a".toList = false ∧
    ¬(Builder.mk .english {} .empty).FindsText "name"
      ((Builder.mk .english {} .empty).add "name" (some ⟨some " a", .startsWith⟩)) " a".toList
      fun pre _ => pre = [] := by
  refine ⟨by decide +kernel, by decide +kernel, ?_⟩
  rintro ⟨p, hadd, hfinds⟩
  have hmake : startsWith .english '\\' " a" = .ok "a%" := by decide +kernel
  have hadded : (Builder.mk .english {} .empty).add "name" (some ⟨some " a", .startsWith⟩) =
      .ok ((Builder.mk .english {} .empty).push
        (.like (.lower (.field "name")) "a%" (some '\\'))) := by
    have hlower : (Builder.mk .english {} .empty).locale.lower "a%" = "a%" := by decide +kernel
    rw [add, if_neg (by decide +kernel), match?, likeMade, hmake]
    exact (like_eq_push (by decide) (by decide +kernel) "name").trans (by rw [hlower])
  obtain rfl := push_injective _ (Except.ok.inj (hadd.symm.trans hadded))
  have hyes := hfinds .empty (.ofList [("name", .text " ab")]) " ab" [] ['b'] (by decide +kernel)
    (by decide +kernel) rfl ⟨by decide +kernel, ?_⟩
  · have hno : (Predicate.like (.lower (.field "name")) "a%" (some '\\')).evaluate .empty
        (.ofList [("name", .text " ab")]) = .ok .no := by decide +kernel
    rw [hno] at hyes
    cases hyes
  · intro u v hsplit
    have hmem : capitalSigma ∈ " a".toList := hsplit ▸ List.mem_append_right u (by simp)
    exact absurd hmem (by decide +kernel)

theorem search_misses_dotless : ¬Locale.Spells ⟨"tr", none⟩ [] "QUIT".toList [] ∧
    ∃ p, (Builder.mk ⟨"tr", none⟩ {} .empty).likeText "name" "QUIT" =
        .ok ((Builder.mk ⟨"tr", none⟩ {} .empty).push p) ∧
      p.evaluate .empty (.ofList [("name", .text "QUIT")]) = .ok .no := by
  refine ⟨fun h => (h.letters (by decide +kernel)).1 (by decide +kernel),
    .like (.lower (.field "name")) "%qu\u0131t%" (some '\\'), rfl, by decide +kernel⟩

theorem search_misses_sigma :
    ¬Locale.english.Spells [] "\u0391\u03A3".toList "\u0391".toList ∧
    ∃ p, (Builder.mk .english {} .empty).likeText "name" "\u0391\u03A3" =
        .ok ((Builder.mk .english {} .empty).push p) ∧
      p.evaluate .empty (.ofList [("name", .text "\u0391\u03A3\u0391")]) = .ok .no := by
  have hmake : contains .english '\\' "\u0391\u03A3" = .ok "%\u03B1\u03C2%" := by decide +kernel
  have hlower : (Builder.mk .english {} .empty).locale.lower "%\u03B1\u03C2%" =
      "%\u03B1\u03C2%" := by
    decide +kernel
  refine ⟨fun h => ?_, .like (.lower (.field "name")) "%\u03B1\u03C2%" (some '\\'), ?_,
    by decide +kernel⟩
  · exact absurd (h.sigmas ['\u0391'] [] rfl) (by decide +kernel)
  · rw [likeText, if_neg (by decide +kernel), likeMade, hmake]
    exact (like_eq_push (by decide) (by decide +kernel) "name").trans (by rw [hlower])

end Builder

end RecordQuery
