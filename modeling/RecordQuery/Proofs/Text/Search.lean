import RecordQuery.Builder
import RecordQuery.Predicate.Evaluate
import RecordQuery.Proofs.Predicate.Like
import RecordQuery.Proofs.Text.Pattern

namespace RecordQuery.TextPattern

open RecordQuery.Text

variable {escape : Char} {ts : List LikeToken} {s text : List Char} {ws : List (List Char)}

def weave (first : List Char) (ws inner : List (List Char)) (last : List Char) : List Char :=
  first ++ (List.zipWith (· ++ ·) ws (inner ++ [last])).flatten

theorem matches_wordTokens (hne : ws ≠ []) : Like.Matches (wordTokens ws ++ ts) s ↔
    ∃ inner last, inner.length + 1 = ws.length ∧ Like.Matches ts last ∧
      s = weave [] ws inner last := by
  induction ws generalizing s with
  | nil => exact absurd rfl hne
  | cons w ws ih =>
      cases ws with
      | nil =>
          have hword : wordTokens [w] = w.map .exactly := by simp [wordTokens]
          rw [hword, Like.matches_word]
          constructor
          · rintro ⟨rest, rfl, hrest⟩
            exact ⟨[], rest, rfl, hrest, by simp [weave]⟩
          · rintro ⟨inner, last, hlength, hlast, rfl⟩
            obtain rfl : inner = [] := List.length_eq_zero_iff.mp (Nat.succ.inj hlength)
            exact ⟨last, by simp [weave], hlast⟩
      | cons v vs =>
          have hwords : wordTokens (w :: v :: vs) ++ ts =
              w.map .exactly ++ .anyRun :: (wordTokens (v :: vs) ++ ts) := by
            simp [wordTokens, List.intercalate_cons_cons]
          rw [hwords, Like.matches_word]
          constructor
          · rintro ⟨tail, rfl, run, rest, rfl, hrest⟩
            obtain ⟨inner, last, hlength, hlast, rfl⟩ := (ih (List.cons_ne_nil v vs)).mp hrest
            exact ⟨run :: inner, last, congrArg (· + 1) hlength, hlast, by simp [weave]⟩
          · rintro ⟨inner, last, hlength, hlast, rfl⟩
            obtain ⟨run, inner, rfl⟩ := List.exists_cons_of_length_eq_add_one (Nat.succ.inj hlength)
            refine ⟨run ++ weave [] (v :: vs) inner last, by simp [weave], run, _, rfl, ?_⟩
            exact (ih (List.cons_ne_nil v vs)).mpr
              ⟨inner, last, Nat.succ.inj hlength, hlast, rfl⟩

def OpenAt (edge part : List Char) : Prop := edge = [] → part = []

theorem matches_edge {edge : List Char} (hedge : edge = [] ∨ edge = ['%']) :
    Like.Matches (edge.map Like.plainToken) s ↔ OpenAt edge s := by
  rcases hedge with rfl | rfl
  · exact ⟨fun h _ => h, fun h => h rfl⟩
  · constructor
    · exact fun _ h => absurd h (List.cons_ne_nil _ _)
    · exact fun _ => ⟨s, [], (List.append_nil s).symm, rfl⟩

theorem matches_append_edge {edge : List Char} (hedge : edge = [] ∨ edge = ['%']) :
    Like.Matches (edge.map Like.plainToken ++ ts) s ↔
      ∃ first rest, OpenAt edge first ∧ s = first ++ rest ∧ Like.Matches ts rest := by
  rcases hedge with rfl | rfl
  · constructor
    · exact fun h => ⟨[], s, fun _ => rfl, rfl, h⟩
    · rintro ⟨first, rest, hopen, rfl, hrest⟩
      rw [hopen rfl]
      exact hrest
  · constructor
    · rintro ⟨run, rest, rfl, hrest⟩
      exact ⟨run, rest, fun h => absurd h (List.cons_ne_nil _ _), rfl, hrest⟩
    · rintro ⟨first, rest, -, rfl, hrest⟩
      exact ⟨first, rest, rfl, hrest⟩

theorem matches_frame {pre post : List Char} (hpre : pre = [] ∨ pre = ['%'])
    (hpost : post = [] ∨ post = ['%']) (hne : ws ≠ []) :
    Like.Matches (pre.map Like.plainToken ++ (wordTokens ws ++ post.map Like.plainToken)) s ↔
      ∃ first inner last, inner.length + 1 = ws.length ∧ (OpenAt pre first ∧ OpenAt post last) ∧
        s = weave first ws inner last := by
  rw [matches_append_edge hpre]
  constructor
  · rintro ⟨first, rest, hfirst, rfl, hrest⟩
    obtain ⟨inner, last, hlength, hlast, rfl⟩ := (matches_wordTokens hne).mp hrest
    exact ⟨first, inner, last, hlength, ⟨hfirst, (matches_edge hpost).mp hlast⟩, rfl⟩
  · rintro ⟨first, inner, last, hlength, ⟨hfirst, hlast⟩, rfl⟩
    refine ⟨first, _, hfirst, rfl, (matches_wordTokens hne).mpr ?_⟩
    exact ⟨inner, last, hlength, (matches_edge hpost).mpr hlast, rfl⟩

def Finds (make : Locale → Char → String → Except ArgumentFault String)
    (Frame : List Char → List Char → Prop) (locale : Locale) (escape : Char) (text : String) :
    Prop :=
  ∃ pattern tokens, make locale escape text = .ok pattern ∧
    PatternTable.tokens? (pattern, some escape) = .ok tokens ∧
    (∀ (b : Builder) (field : String), b.like field pattern escape =
      .ok (b.push (.like (.lower (.field field)) pattern (some escape)))) ∧
    ∀ s, Like.fits Like.exact tokens s = true ↔
      ∃ first inner last, inner.length + 1 = (words (locale.lowerChars text.toList)).length ∧
        Frame first last ∧ s = weave first (words (locale.lowerChars text.toList)) inner last

theorem like_eq_push {b : Builder} {pattern : String}
    (hcheck : Settings.checkEscape escape = .ok ()) (hblank : allBlank pattern.toList = false)
    (field : String) : b.like field pattern escape =
      .ok (b.push (.like (.lower (.field field)) (b.locale.lower pattern) (some escape))) := by
  rw [Builder.like, hcheck, hblank]
  rfl

theorem like_of_small {b : Builder} {pattern : String}
    (hcheck : Settings.checkEscape escape = .ok ()) (hblank : allBlank pattern.toList = false)
    (hsmall : ∀ c ∈ pattern.toList, Small c) (field : String) : b.like field pattern escape =
      .ok (b.push (.like (.lower (.field field)) pattern (some escape))) := by
  rw [like_eq_push hcheck hblank, Locale.lower_eq_self hsmall]

theorem finds_build (shape : List Char → List Char) {pre post : List Char} {text : String}
    (hpre : pre = [] ∨ pre = ['%']) (hpost : post = [] ∨ post = ['%']) (hedge : '%' ∈ pre ++ post)
    (hshape : ∀ p, shape p = pre ++ p ++ post) (hcheck : Settings.checkEscape escape = .ok ())
    (htext : allBlank text.toList = false) (locale : Locale) :
    Finds (build shape) (fun first last => OpenAt pre first ∧ OpenAt post last) locale escape
      text := by
  have hwords : words (locale.lowerChars text.toList) ≠ [] := by
    rw [Ne, words_eq_nil_iff, Locale.lowerChars_not_blank htext]
    exact Bool.false_ne_true
  have hbuild : build shape locale escape text =
      .ok (String.ofList (pre ++ ofWords escape (locale.lowerChars text.toList) ++ post)) := by
    rw [build, htext, if_neg Bool.false_ne_true, hcheck, hshape, prepared_eq_ofWords hcheck]
  -- The escape character is no wildcard, so the edges keep their meaning.
  have hread := tokens?_frame hpre hpost (Settings.ne_percent_of_checkEscape hcheck)
    (locale.lowerChars text.toList)
  refine ⟨_, pre.map Like.plainToken ++
    (wordTokens (words (locale.lowerChars text.toList)) ++ post.map Like.plainToken),
    hbuild, ?_, ?_, ?_⟩
  · rw [PatternTable.tokens?, String.toList_ofList, hread]
  · intro b field
    refine like_of_small hcheck ?_ ?_ field
    · refine allBlank_eq_false_iff.mpr ⟨'%', ?_, rfl⟩
      rw [String.toList_ofList]
      rcases List.mem_append.mp hedge with h | h
      · exact List.mem_append_left _ (List.mem_append_left _ h)
      · exact List.mem_append_right _ h
    · rw [String.toList_ofList]
      exact small_frame hpre hpost hcheck locale text.toList
  · intro s
    rw [Like.fits_iff, matches_frame hpre hpost hwords]

theorem Finds.congr {make : Locale → Char → String → Except ArgumentFault String}
    {Frame Frame' : List Char → List Char → Prop} {locale : Locale} {text : String}
    (h : Finds make Frame locale escape text)
    (hframe : ∀ first last, Frame first last ↔ Frame' first last) :
    Finds make Frame' locale escape text := by
  obtain ⟨pattern, tokens, hmake, hread, hlike, hfits⟩ := h
  refine ⟨pattern, tokens, hmake, hread, hlike, fun s => ?_⟩
  simp only [hfits, hframe]

theorem search_exact {text : String} (hcheck : Settings.checkEscape escape = .ok ())
    (htext : allBlank text.toList = false) (locale : Locale) :
    Finds contains (fun _ _ => True) locale escape text ∧
      Finds startsWith (fun first _ => first = []) locale escape text ∧
      Finds endsWith (fun _ last => last = []) locale escape text := by
  have hclosed : ∀ part, OpenAt [] part ↔ part = [] := fun part => ⟨fun h => h rfl, fun h _ => h⟩
  have hopen : ∀ part, OpenAt ['%'] part ↔ True :=
    fun part => iff_true_intro fun h => absurd h (List.cons_ne_nil _ _)
  refine ⟨?_, ?_, ?_⟩
  · have hfinds := finds_build (fun p => '%' :: p ++ ['%']) (.inr rfl) (.inr rfl)
      (by decide) (fun _ => rfl) hcheck htext locale
    exact hfinds.congr fun first last => by rw [hopen, hopen, and_true]
  · have hfinds := finds_build (fun p => p ++ ['%']) (.inl rfl) (.inr rfl)
      (by decide) (fun _ => rfl) hcheck htext locale
    exact hfinds.congr fun first last => by rw [hclosed, hopen, and_true]
  · have hfinds := finds_build (fun p => '%' :: p) (.inr rfl) (.inl rfl)
      (by decide) (fun p => (List.append_nil ('%' :: p)).symm) hcheck htext locale
    exact hfinds.congr fun first last => by rw [hopen, hclosed, true_and]

theorem search_exact_turkish : Settings.checkEscape 'x' = .ok () ∧
    allBlank " 50%\tIx_\u2003".toList = false ∧
    Locale.lowerChars ⟨"tr", none⟩ " 50%\tIx_\u2003".toList = " 50%\t\u0131x_\u2003".toList ∧
    words " 50%\t\u0131x_\u2003".toList = ["50%".toList, "\u0131x_".toList] ∧
    Finds startsWith (fun first _ => first = []) ⟨"tr", none⟩ 'x' " 50%\tIx_\u2003" :=
  ⟨by decide +kernel, by decide +kernel, by decide +kernel, by decide +kernel,
    (search_exact (by decide +kernel) (by decide +kernel) ⟨"tr", none⟩).2.1⟩

end RecordQuery.TextPattern
