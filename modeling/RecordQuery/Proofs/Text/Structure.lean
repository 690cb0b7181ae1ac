import RecordQuery.Proofs.Builder.Accepts
import RecordQuery.Proofs.Text.Context
import RecordQuery.Proofs.Text.Search

namespace RecordQuery

open RecordQuery.Text

namespace Like

section Reading

variable (image : List Char → Char → List Char → List Char) (escape : Option Char)

def plainTokens (before : List Char) (c : Char) (after : List Char) : List LikeToken :=
  if c = '%' then [.anyRun] else if c = '_' then [.anyOne] else (image before c after).map .exactly

def imageTokens? (before : List Char) : List Char → Option (List LikeToken)
  | [] => some []
  | [c] => if escape = some c then none else some (plainTokens image before c [])
  | c :: d :: rest =>
      if escape = some c then
        (imageTokens? (d :: c :: before) rest).map ((image (c :: before) d rest).map .exactly ++ ·)
      else
        (imageTokens? (c :: before) (d :: rest)).map (plainTokens image before c (d :: rest) ++ ·)

variable {image escape} {before pattern rest : List Char} {c : Char}

theorem plainTokens_of_fixed {after : List Char} (h : image before c after = [c]) :
    plainTokens image before c after = [plainToken c] := by
  rw [plainTokens, plainToken, h]
  split
  · rfl
  · split <;> rfl

theorem imageTokens?_escaped (h : escape = some c) (d : Char) :
    imageTokens? image escape before (c :: d :: rest) =
      (imageTokens? image escape (d :: c :: before) rest).map
        ((image (c :: before) d rest).map .exactly ++ ·) := by
  rw [imageTokens?, if_pos h]

theorem imageTokens?_plain (h : escape ≠ some c) :
    imageTokens? image escape before (c :: rest) =
      (imageTokens? image escape (c :: before) rest).map
        (plainTokens image before c rest ++ ·) := by
  cases rest with
  | nil => simp [imageTokens?, h]
  | cons d rest => rw [imageTokens?, if_neg h]

theorem imageTokens?_eq_none :
    imageTokens? image escape before pattern = none ↔ tokens? escape pattern = none := by
  induction pattern using tokens?.induct escape generalizing before with
  | case1 => simp [imageTokens?, tokens?]
  | case2 c h => simp [imageTokens?, tokens?, h]
  | case3 c h => simp [imageTokens?, tokens?, h]
  | case4 c d rest h ih =>
      rw [imageTokens?_escaped h, tokens?_escaped h, Option.map_eq_none_iff, Option.map_eq_none_iff,
        ih]
  | case5 c d rest h ih =>
      rw [imageTokens?_plain h, tokens?_plain h, Option.map_eq_none_iff, Option.map_eq_none_iff, ih]

end Reading

section Literals

variable {escape c : Char} {w rest : List Char}

def Literal (escape c : Char) : Prop := c ≠ escape ∧ c ≠ '%' ∧ c ≠ '_'

instance (escape c : Char) : Decidable (Literal escape c) := inferInstanceAs (Decidable (_ ∧ _))

theorem tokens?_literals (hw : ∀ c ∈ w, Literal escape c) (rest : List Char) :
    tokens? (some escape) (w ++ rest) =
      (tokens? (some escape) rest).map (w.map .exactly ++ ·) := by
  have hself : w.flatMap (TextPattern.escaped escape) = w := by
    rw [List.flatMap_congr fun c hc => ?_, List.flatMap_singleton' w]
    obtain ⟨hescape, hrun, hone⟩ := hw c hc
    rw [TextPattern.escaped, if_neg (by simp [hescape, hrun, hone])]
  rw [← TextPattern.tokens?_word, hself]

theorem tokens?_escape_append (hne : w ≠ []) (hw : ∀ c ∈ w.tail, Literal escape c)
    (rest : List Char) : tokens? (some escape) (escape :: (w ++ rest)) =
      (tokens? (some escape) rest).map (w.map .exactly ++ ·) := by
  obtain ⟨c, w, rfl⟩ := List.exists_cons_of_ne_nil hne
  rw [List.tail_cons] at hw
  rw [List.cons_append, tokens?_escaped rfl, tokens?_literals hw, Option.map_map]
  rfl

theorem length_tokens?_le {ts : List LikeToken} (h : tokens? (some escape) w = some ts) :
    ts.length ≤ w.length ∧ (escape ∈ w → ts.length < w.length) := by
  induction w using tokens?.induct (some escape) generalizing ts with
  | case1 =>
      obtain rfl := Option.some.inj h
      simp
  | case2 c hc =>
      rw [tokens?, if_pos hc] at h
      cases h
  | case3 c hc =>
      rw [tokens?, if_neg hc] at h
      obtain rfl := Option.some.inj h
      have hne : escape ≠ c := fun he => hc (congrArg some he)
      simp [hne]
  | case4 c d rest hc ih =>
      rw [tokens?_escaped hc] at h
      obtain ⟨us, hus, rfl⟩ := Option.map_eq_some_iff.mp h
      have hle := (ih hus).1
      simp only [List.length_cons]
      omega
  | case5 c d rest hc ih =>
      rw [tokens?_plain hc] at h
      obtain ⟨us, hus, rfl⟩ := Option.map_eq_some_iff.mp h
      obtain ⟨hle, hlt⟩ := ih hus
      refine ⟨Nat.succ_le_succ hle, fun hmem => Nat.succ_lt_succ (hlt ?_)⟩
      exact (List.mem_cons.mp hmem).resolve_left fun he => hc (congrArg some he)

end Literals

theorem imageTokens?_literals {image : List Char → Char → List Char → List Char} {escape : Char}
    {s : List Char} (hs : ∀ c ∈ s, Literal escape c) (before : List Char) :
    imageTokens? image (some escape) before s =
      some ((imagesIn image before s []).map .exactly) := by
  induction s generalizing before with
  | nil => rfl
  | cons c rest ih =>
      obtain ⟨hescape, hrun, hone⟩ := hs c (List.mem_cons_self ..)
      have hne : some escape ≠ some c := fun h => hescape (Option.some.inj h).symm
      rw [imageTokens?_plain hne, ih fun d hd => hs d (List.mem_cons_of_mem _ hd), plainTokens,
        if_neg hrun, if_neg hone, imagesIn, List.map_append, List.append_nil]
      rfl

end Like

namespace Locale

variable {l : Locale} {escape c d : Char} {before after pattern rest : List Char}

def Spares (l : Locale) (escape : Char) (before s : List Char) : Prop :=
  ∀ u c v, s = u ++ c :: v → escape ∈ l.foldAt (u.reverse ++ before) c v → c = escape

theorem Spares.head (h : l.Spares escape before (c :: rest)) :
    escape ∈ l.foldAt before c rest → c = escape :=
  h [] c rest rfl

theorem Spares.tail (h : l.Spares escape before (c :: rest)) :
    l.Spares escape (c :: before) rest := by
  intro u d v hsplit
  have hplace := h (c :: u) d v (by rw [hsplit, List.cons_append])
  simpa only [List.reverse_cons, List.append_assoc, List.singleton_append] using hplace

theorem literal_of_mem_foldAt (hc : Like.Literal escape c)
    (hspare : escape ∈ l.foldAt before c after → c = escape) (hd : d ∈ l.foldAt before c after) :
    Like.Literal escape d := by
  refine ⟨?_, ?_, ?_⟩
  · rintro rfl
    exact hc.1 (hspare hd)
  · rintro rfl
    exact hc.2.1 (eq_of_mem_foldAt (by decide) hd).symm
  · rintro rfl
    exact hc.2.2 (eq_of_mem_foldAt (by decide) hd).symm

variable (hcheck : Settings.checkEscape escape = .ok ())

include hcheck

theorem foldAt_of_not_literal (hc : ¬Like.Literal escape c) (before after : List Char) :
    l.foldAt before c after = [c] := by
  refine foldAt_of_small ?_ before after
  by_cases hescape : c = escape
  · exact hescape ▸ Settings.small_of_checkEscape hcheck
  · by_cases hrun : c = '%'
    · exact hrun ▸ by decide
    · by_cases hone : c = '_'
      · exact hone ▸ by decide
      · exact absurd ⟨hescape, hrun, hone⟩ hc

theorem tokens?_foldAt (hne : c ≠ escape)
    (hspare : escape ∈ l.foldAt before c after → c = escape) (rest : List Char) :
    Like.tokens? (some escape) (l.foldAt before c after ++ rest) =
      (Like.tokens? (some escape) rest).map (Like.plainTokens l.foldAt before c after ++ ·) := by
  by_cases hc : Like.Literal escape c
  · rw [Like.tokens?_literals (fun _ => literal_of_mem_foldAt hc hspare), Like.plainTokens,
      if_neg hc.2.1, if_neg hc.2.2]
  · have hfixed : l.foldAt before c after = [c] := foldAt_of_not_literal hcheck hc before after
    have hplain : some escape ≠ some c := fun h => hne (Option.some.inj h).symm
    rw [hfixed, List.singleton_append, Like.tokens?_plain hplain, Like.plainTokens_of_fixed hfixed]
    rfl

theorem tokens?_escape_foldAt (hspare : escape ∈ l.foldAt before c after → c = escape)
    (rest : List Char) :
    Like.tokens? (some escape) (escape :: (l.foldAt before c after ++ rest)) =
      (Like.tokens? (some escape) rest).map ((l.foldAt before c after).map .exactly ++ ·) := by
  refine Like.tokens?_escape_append (l.foldAt_ne_nil before c after) ?_ rest
  by_cases hc : Like.Literal escape c
  · exact fun d hd => literal_of_mem_foldAt hc hspare (List.mem_of_mem_tail hd)
  · rw [foldAt_of_not_literal hcheck hc]
    exact nofun

theorem tokens?_imagesIn (h : l.Spares escape before pattern) :
    Like.tokens? (some escape) (imagesIn l.foldAt before pattern []) =
      Like.imageTokens? l.foldAt (some escape) before pattern := by
  have hescape : ∀ before after, l.foldAt before escape after = [escape] :=
    foldAt_of_small (Settings.small_of_checkEscape hcheck)
  induction pattern using Like.tokens?.induct (some escape) generalizing before with
  | case1 => rfl
  | case2 c hc =>
      obtain rfl := Option.some.inj hc
      rw [imagesIn, hescape, Like.imageTokens?, if_pos rfl, imagesIn, List.append_nil, Like.tokens?,
        if_pos rfl]
  | case3 c hc =>
      have hne : c ≠ escape := fun heq => hc (congrArg some heq.symm)
      rw [Like.imageTokens?_plain hc, imagesIn, List.append_nil, tokens?_foldAt hcheck hne h.head]
      rfl
  | case4 c d rest hc ih =>
      obtain rfl := Option.some.inj hc
      rw [Like.imageTokens?_escaped rfl, imagesIn, hescape, imagesIn, List.append_nil,
        List.singleton_append, tokens?_escape_foldAt hcheck h.tail.head, ih h.tail.tail]
  | case5 c d rest hc ih =>
      have hne : c ≠ escape := fun heq => hc (congrArg some heq.symm)
      rw [Like.imageTokens?_plain hc, imagesIn, List.append_nil, tokens?_foldAt hcheck hne h.head,
        ih h.tail]

theorem exists_literals (hc : c ≠ escape) (h : escape ∈ l.foldAt before c after) :
    ∃ s, (∀ d ∈ s, Like.Literal escape d) ∧ allBlank s = false ∧ escape ∈ l.lowerChars s := by
  have hliteral : Like.Literal escape c := by
    by_contra hnot
    rw [foldAt_of_not_literal hcheck hnot] at h
    exact hc (List.mem_singleton.mp h).symm
  have hblank : isBlank c = false := by
    rw [Bool.eq_false_iff]
    intro hblank
    rw [foldAt_of_small (small_of_isBlank hblank)] at h
    exact hc (List.mem_singleton.mp h).symm
  rcases l.foldAt_alone before c after with halone | ⟨hturkic, -, hfinal⟩
  · refine ⟨[c], by simpa using hliteral, by simp [allBlank, hblank], ?_⟩
    rw [lowerChars_eq_imagesIn, imagesIn, imagesIn, List.append_nil, List.append_nil, ← halone]
    exact h
  · obtain rfl : escape = '\u03C2' := List.mem_singleton.mp (hfinal ▸ h)
    refine ⟨['a', capitalSigma], List.forall_mem_cons.mpr
      ⟨by decide, List.forall_mem_singleton.mpr (by decide)⟩, by decide, ?_⟩
    rw [lowerChars, hturkic]
    decide +kernel

end Locale

namespace Builder

variable {b : Builder} {field pattern : String} {escape : Char}

/-- A pattern is pushed in a form that asks for the same as the pattern, apart from the folding of
its literal characters, and that can be read if the pattern can. -/
def KeepsStructure (b : Builder) (field pattern : String) (escape : Char) : Prop :=
  ∃ pushed, b.like field pattern escape =
      .ok (b.push (.like (.lower (.field field)) pushed (some escape))) ∧
    Like.tokens? (some escape) pushed.toList =
      Like.imageTokens? b.locale.foldAt (some escape) [] pattern.toList ∧
    (Like.tokens? (some escape) pushed.toList = none →
      Like.tokens? (some escape) pattern.toList = none)

theorem keepsStructure_iff (hcheck : Settings.checkEscape escape = .ok ())
    (hblank : allBlank pattern.toList = false) :
    b.KeepsStructure field pattern escape ↔
      Like.tokens? (some escape) (b.locale.lowerChars pattern.toList) =
        Like.imageTokens? b.locale.foldAt (some escape) [] pattern.toList := by
  have hlike := TextPattern.like_eq_push (b := b) hcheck hblank field
  have hchars := b.locale.toList_lower pattern
  constructor
  · rintro ⟨pushed, hpushed, htokens, -⟩
    have hsame := b.push_injective (Except.ok.inj (hpushed.symm.trans hlike))
    obtain ⟨-, rfl, -⟩ := Predicate.like.inj hsame
    rwa [hchars] at htokens
  · intro htokens
    refine ⟨b.locale.lower pattern, hlike, by rw [hchars, htokens], fun hnone => ?_⟩
    rwa [hchars, htokens, Like.imageTokens?_eq_none] at hnone

theorem like_structure (hcheck : Settings.checkEscape escape = .ok ()) (b : Builder)
    (field : String) :
    (∀ pattern : String, allBlank pattern.toList = false →
      b.locale.Spares escape [] pattern.toList → b.KeepsStructure field pattern escape) ∧
    ((∀ pattern : String, allBlank pattern.toList = false → b.KeepsStructure field pattern escape) ↔
      ∀ before c after, escape ∈ b.locale.foldAt before c after → c = escape) := by
  have hspared : ∀ pattern : String, allBlank pattern.toList = false →
      b.locale.Spares escape [] pattern.toList → b.KeepsStructure field pattern escape := by
    intro pattern hblank hspares
    rw [keepsStructure_iff hcheck hblank, Locale.lowerChars_eq_imagesIn]
    exact Locale.tokens?_imagesIn hcheck hspares
  refine ⟨hspared, ?_, ?_⟩
  · intro hall before c after hmem
    by_contra hc
    obtain ⟨s, hs, hblank, hescape⟩ := Locale.exists_literals hcheck hc hmem
    have hkept := hall (String.ofList s) (by rwa [String.toList_ofList])
    -- Each character would have to be there, but the escape character is not read as one.
    rw [keepsStructure_iff hcheck (by rwa [String.toList_ofList]), String.toList_ofList,
      Like.imageTokens?_literals hs, ← Locale.lowerChars_eq_imagesIn] at hkept
    have hlength := (Like.length_tokens?_le hkept).2 hescape
    rw [List.length_map] at hlength
    exact Nat.lt_irrefl _ hlength
  · intro hnone pattern hblank
    exact hspared pattern hblank fun _ _ _ _ => hnone _ _ _

theorem like_structure_turkish : Settings.checkEscape '\\' = .ok () ∧
    allBlank "I\\%_\u0130".toList = false ∧
    Like.imageTokens? (Locale.foldAt ⟨"tr", none⟩) (some '\\') [] "I\\%_\u0130".toList =
      some [.exactly '\u0131', .exactly '%', .anyOne, .exactly 'i'] ∧
    (Builder.mk ⟨"tr", none⟩ {} .empty).KeepsStructure "name" "I\\%_\u0130" '\\' := by
  have hcheck : Settings.checkEscape '\\' = .ok () := by decide
  have hblank : allBlank "I\\%_\u0130".toList = false := by decide +kernel
  refine ⟨hcheck, hblank, by decide +kernel, ?_⟩
  refine (like_structure hcheck _ "name").2.mpr ?_ _ hblank
  exact fun _ _ _ h => (Locale.eq_of_mem_foldAt (by decide) h).symm

theorem not_keepsStructure_letter : Settings.checkEscape 'e' = .ok () ∧
    allBlank "E%".toList = false ∧ allBlank "E".toList = false ∧
    ¬(Builder.mk .english {} .empty).KeepsStructure "name" "E%" 'e' ∧
    ¬(Builder.mk .english {} .empty).KeepsStructure "name" "E" 'e' := by
  have hcheck : Settings.checkEscape 'e' = .ok () := by decide +kernel
  have hwildcard : allBlank "E%".toList = false := by decide +kernel
  have hlast : allBlank "E".toList = false := by decide +kernel
  refine ⟨hcheck, hwildcard, hlast, ?_, ?_⟩
  · rw [keepsStructure_iff hcheck hwildcard]
    decide +kernel
  · rw [keepsStructure_iff hcheck hlast]
    decide +kernel

end Builder

end RecordQuery
