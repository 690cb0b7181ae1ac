import RecordQuery.Builder
import RecordQuery.Proofs.Text.Context

namespace RecordQuery

open RecordQuery.Text

namespace Text

variable {run : CaseRun} {code : Nat} {c : Char}

def IsCapital (c : Char) : Prop :=
  c.toNat = 0x130 ∨ ∃ run ∈ capitals, run.covers c.toNat = true

instance (c : Char) : Decidable (IsCapital c) := inferInstanceAs (Decidable (_ ∨ _))

theorem target_ne (hrun : run ∈ capitals) (hcovers : run.covers code = true) :
    run.target code ≠ code := by
  intro hself
  have hnot := not_covers_target (capitals_clear run hrun run hrun) hcovers
  rw [hself, hcovers] at hnot
  cases hnot

theorem not_small_of_covers (hrun : run ∈ capitals) (hcovers : run.covers c.toNat = true) :
    ¬Small c := by
  intro hsmall
  unfold Small lowerOf at hsmall
  split at hsmall
  · simp at hsmall
  · -- The run that folding takes is the first one that covers the character, not the given one.
    split at hsmall
    · rename_i first hfind
      obtain ⟨hfirst, hcovers'⟩ := covers_of_find? hfind
      obtain ⟨hvalid, -, -⟩ :=
        target_sound (List.all_eq_true.mp capitals_sound first hfirst) hcovers'
      have hself := congrArg Char.toNat (List.singleton_inj.mp hsmall)
      rw [toNat_ofNat hvalid] at hself
      exact target_ne hfirst hcovers' hself
    · rename_i hfind
      exact List.find?_eq_none.mp hfind run hrun hcovers

theorem small_iff_not_isCapital : Small c ↔ ¬IsCapital c := by
  constructor
  · rintro hsmall (hdotted | ⟨run, hrun, hcovers⟩)
    · obtain rfl : c = '\u0130' := by rw [← Char.ofNat_toNat c, hdotted]
      revert hsmall
      decide
    · exact not_small_of_covers hrun hcovers hsmall
  · intro hnot
    have hdotted : c.toNat ≠ 0x130 := fun h => hnot (.inl h)
    have hnone : capitals.find? (·.covers c.toNat) = none :=
      List.find?_eq_none.mpr fun run hrun hcovers => hnot (.inr ⟨run, hrun, hcovers⟩)
    unfold Small lowerOf
    rw [if_neg hdotted, hnone]

example : IsCapital '\u01C5' ∧ ¬IsCapital (Char.ofNat 0x1D400) := by decide +kernel

end Text

namespace Locale

variable {l : Locale} {s : List Char}

theorem lowerChars_lowerChars (l l' : Locale) (s : List Char) :
    l'.lowerChars (l.lowerChars s) = l.lowerChars s :=
  lowerChars_of_small fun _ => small_of_mem_lowerChars

theorem lowerChars_eq_self_iff : l.lowerChars s = s ↔ ∀ c ∈ s, ¬IsCapital c := by
  simp only [← small_iff_not_isCapital]
  constructor
  · intro hself c hc
    rw [← hself] at hc
    exact small_of_mem_lowerChars hc
  · exact lowerChars_of_small

theorem allBlank_lowerChars (l : Locale) (s : List Char) :
    allBlank (l.lowerChars s) = allBlank s := by
  cases h : allBlank s with
  | false => exact lowerChars_not_blank h
  | true =>
      have hsmall : ∀ c ∈ s, Small c := fun c hc => small_of_isBlank (List.all_eq_true.mp h c hc)
      rw [lowerChars_of_small hsmall, h]

theorem lower_lower (l l' : Locale) (s : String) : l'.lower (l.lower s) = l.lower s := by
  rw [lower, toList_lower, lowerChars_lowerChars, ← lower]

end Locale

theorem TextPattern.build_lower (shape : List Char → List Char) (l : Locale) (escape : Char)
    (s : String) : build shape l escape (l.lower s) = build shape l escape s := by
  unfold build
  rw [Locale.toList_lower, Locale.allBlank_lowerChars, Locale.lowerChars_lowerChars]

namespace Builder

variable (b : Builder) (field s : String)

theorem like_lower (escape : Char) :
    b.like field (b.locale.lower s) escape = b.like field s escape := by
  unfold like
  rw [Locale.toList_lower, Locale.allBlank_lowerChars, Locale.lower_lower]

theorem likeMade_lower (shape : List Char → List Char) :
    b.likeMade field (TextPattern.build shape) (b.locale.lower s) =
      b.likeMade field (TextPattern.build shape) s := by
  unfold likeMade
  rw [TextPattern.build_lower]

theorem likeText_lower : b.likeText field (b.locale.lower s) = b.likeText field s := by
  unfold likeText
  rw [Locale.toList_lower, Locale.allBlank_lowerChars]
  exact congrArg _ (b.likeMade_lower field s _)

theorem match?_lower {matching : Matching} (h : matching ≠ .exact) :
    b.match? field (b.locale.lower s) matching = b.match? field s matching := by
  cases matching with
  | exact => exact absurd rfl h
  | startsWith => exact b.likeMade_lower field s _
  | endsWith => exact b.likeMade_lower field s _
  | like => exact b.likeText_lower field s
  | custom => exact b.like_lower field s b.settings.escape

end Builder

theorem Locale.lower_idempotent (l : Locale) (s : String) :
    l.lower (l.lower s) = l.lower s ∧
      (l.lower s = s ↔ ∀ c ∈ s.toList, ¬IsCapital c) ∧
      ∀ (settings : Settings) (root : Group) (field : String),
        let b : Builder := ⟨l, settings, root⟩
        (∀ escape, b.like field (l.lower s) escape = b.like field s escape) ∧
          ∀ matching, matching ≠ .exact →
            b.match? field (l.lower s) matching = b.match? field s matching := by
  refine ⟨lower_lower l l s, ?_, fun settings root field => ⟨?_, ?_⟩⟩
  · rw [← lowerChars_eq_self_iff, ← toList_lower, String.toList_inj]
  · exact Builder.like_lower ⟨l, settings, root⟩ field s
  · exact fun _ => Builder.match?_lower ⟨l, settings, root⟩ field s

theorem Locale.lower_idempotent_of_dotted :
    let english : Builder := ⟨.english, {}, .empty⟩
    let turkish : Builder := ⟨⟨"tr", none⟩, {}, .empty⟩
    Locale.english.lower "\u0130\u03A3" = "i\u0307\u03C2" ∧
      Locale.english.lower "i\u0307\u03C2" = "i\u0307\u03C2" ∧
      Locale.lower ⟨"tr", none⟩ "I\u0130\u03A3" = "\u0131i\u03C3" ∧
      Locale.lower ⟨"tr", none⟩ "\u0131i\u03C3" = "\u0131i\u03C3" ∧
      Matching.startsWith ≠ .exact ∧
      english.match? "name" "i\u0307\u03C2" .startsWith =
        english.match? "name" "\u0130\u03A3" .startsWith ∧
      turkish.like "name" "\u0131i\u03C3" '\\' = turkish.like "name" "I\u0130\u03A3" '\\' := by
  intro english turkish
  have henglish : Locale.english.lower "\u0130\u03A3" = "i\u0307\u03C2" := by decide +kernel
  have hturkish : Locale.lower ⟨"tr", none⟩ "I\u0130\u03A3" = "\u0131i\u03C3" := by
    decide +kernel
  have hstart : Matching.startsWith ≠ .exact := by decide
  obtain ⟨htwice, -, hsame⟩ := Locale.lower_idempotent .english "\u0130\u03A3"
  obtain ⟨htwice', -, hsame'⟩ := Locale.lower_idempotent ⟨"tr", none⟩ "I\u0130\u03A3"
  rw [henglish] at htwice hsame
  rw [hturkish] at htwice' hsame'
  exact ⟨henglish, htwice, hturkish, htwice', hstart,
    (hsame {} .empty "name").2 .startsWith hstart, (hsame' {} .empty "name").1 '\\'⟩

end RecordQuery
