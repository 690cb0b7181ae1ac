import RecordQuery.Json.Token
import RecordQuery.Json.Writer
import RecordQuery.Proofs.Text.Numeral

namespace RecordQuery.Json

open RecordQuery.Text

theorem hexUnit?_control :
    ∀ n < 32, hexUnit? '0' '0' (hexDigit (n / 16)) (hexDigit n) = some n := by
  decide

theorem joinParts_control {n : Nat} (hn : n < 32) (parts : List Part) :
    joinParts (.unit n :: parts) = (joinParts parts).map (Char.ofNat n :: ·) := by
  have hhigh : isHigh n = false := by simp [isHigh]; omega
  have hlow : isLow n = false := by simp [isLow]; omega
  rw [joinParts.eq_def]
  simp only [hhigh, hlow, Bool.false_eq_true, if_false]

theorem quotedParts_escaped (c : Char) {s rest text : List Char} {parts : List Part}
    (h : quotedParts s = some (parts, rest)) (htext : joinParts parts = some text) :
    ∃ part, quotedParts (escaped c ++ s) = some (part :: parts, rest) ∧
      joinParts (part :: parts) = some (c :: text) := by
  have hchar : joinParts (.char c :: parts) = some (c :: text) := by rw [joinParts, htext]; rfl
  have hshort (e : Char) (hu : e ≠ 'u') (he : shortEscape? e = some c) :
      quotedParts ('\\' :: e :: s) = some (.char c :: parts, rest) := by
    rw [quotedParts, he, h]
    · rintro _ _ _ _ _ rfl
      exact fun _ => hu rfl
  unfold escaped
  split_ifs with hquote hslash hline htab hreturn hback hfeed hcontrol
  · exact ⟨_, hshort '"' (by decide) (congrArg some hquote.symm), hchar⟩
  · exact ⟨_, hshort '\\' (by decide) (congrArg some hslash.symm), hchar⟩
  · exact ⟨_, hshort 'n' (by decide) (congrArg some hline.symm), hchar⟩
  · exact ⟨_, hshort 't' (by decide) (congrArg some htab.symm), hchar⟩
  · exact ⟨_, hshort 'r' (by decide) (congrArg some hreturn.symm), hchar⟩
  · exact ⟨_, hshort 'b' (by decide) (by rw [← Char.ofNat_toNat c, hback]; rfl), hchar⟩
  · exact ⟨_, hshort 'f' (by decide) (by rw [← Char.ofNat_toNat c, hfeed]; rfl), hchar⟩
  · refine ⟨.unit c.toNat, ?_, ?_⟩
    · have hunit := hexUnit?_control c.toNat hcontrol
      simp only [List.cons_append, List.nil_append, quotedParts, hunit, h]
    · rw [joinParts_control hcontrol, htext, Char.ofNat_toNat]
      rfl
  · refine ⟨_, ?_, hchar⟩
    rw [List.singleton_append, quotedParts, if_neg (by simp [hslash, hcontrol]), h]
    · rfl
    all_goals intros; simp_all

theorem quotedParts_flatMap (s rest : List Char) :
    ∃ parts, quotedParts (s.flatMap escaped ++ '"' :: rest) = some (parts, rest) ∧
      joinParts parts = some s := by
  induction s with
  | nil => exact ⟨[], rfl, rfl⟩
  | cons c s ih =>
      obtain ⟨parts, hparts, htext⟩ := ih
      obtain ⟨part, hpart, hjoin⟩ := quotedParts_escaped c hparts htext
      exact ⟨part :: parts, by rw [List.flatMap_cons, List.append_assoc, hpart], hjoin⟩

theorem token?_writeText (s : String) (rest : List Char) :
    token? (writeText s ++ rest) = some (.atom (.text s), rest) := by
  obtain ⟨parts, hparts, htext⟩ := quotedParts_flatMap s.toList rest
  have hwritten : writeText s ++ rest = '"' :: (s.toList.flatMap escaped ++ '"' :: rest) := by
    simp [writeText]
  rw [hwritten, token?, hparts, Option.map_some, textToken, htext]
  simp

def EndsNumber : List Char → Prop
  | [] => True
  | c :: _ => isMark c = true

theorem isDigit_of_isMark {c : Char} (h : isMark c = true) : c.isDigit = false := by
  simp only [isMark, Bool.or_eq_true, beq_iff_eq] at h
  rcases h with ((((rfl | rfl) | rfl) | rfl) | rfl) | rfl <;> rfl

theorem takeWhile_digits {digits rest : List Char} (h : ∀ c ∈ digits, c.isDigit = true)
    (hrest : EndsNumber rest) : (digits ++ rest).takeWhile Char.isDigit = digits := by
  rw [List.takeWhile_append_of_pos h]
  cases rest with
  | nil => simp
  | cons c rest => simp [isDigit_of_isMark hrest]

theorem wholeDigits?_writeNat (n : Nat) {rest : List Char} (hrest : EndsNumber rest) :
    wholeDigits? (writeNat n ++ rest) = some (writeNat n, rest) := by
  rcases Nat.eq_zero_or_pos n with rfl | hn
  · rfl
  · have htake := takeWhile_digits (fun _ => isDigit_of_mem_writeNat (n := n)) hrest
    have hhead := head?_writeNat hn
    obtain ⟨c, s, hs, -⟩ := exists_cons_writeNat n
    rw [hs] at hhead htake ⊢
    rw [List.cons_append] at htake ⊢
    unfold wholeDigits?
    split
    · rename_i heq
      rw [(List.cons.inj heq).1] at hhead
      exact absurd rfl hhead
    · simp only [htake]
      simp

theorem scale?_of_ends {rest : List Char} (hrest : EndsNumber rest) :
    scale? rest = some (([], 0, false), rest) := by
  cases rest with
  | nil => rfl
  | cons c rest =>
      have hc : isMark c = true := hrest
      have hpoint : c ≠ '.' := by rintro rfl; cases hc
      have hsmall : c ≠ 'e' := by rintro rfl; cases hc
      have hlarge : c ≠ 'E' := by rintro rfl; cases hc
      simp [scale?, hpoint, hsmall, hlarge]

theorem numberToken?_writeNat (negative : Bool) {n : Nat} {rest : List Char}
    (hrest : EndsNumber rest) (hsize : isHuge n 0 = false) (hsign : negative = true → n ≠ 0) :
    numberToken? negative (writeNat n ++ rest) =
      some (.atom (.int (if negative then -(n : Int) else n)), rest) := by
  have hminus : (negative && n == 0) = false := by
    cases negative with
    | false => rfl
    | true => simpa using hsign rfl
  simp only [numberToken?, wholeDigits?_writeNat n hrest, scale?_of_ends hrest, bind, Option.bind,
    List.append_nil, ofDigits_writeNat, List.length_nil, Int.natCast_zero, Int.sub_zero, hsize,
    Bool.false_eq_true, if_false, Bool.false_or, hminus, pure]

theorem token?_digit {c : Char} (h : c.isDigit = true) (rest : List Char) :
    token? (c :: rest) = numberToken? false (c :: rest) := by
  have hmark : isMark c = false := by
    refine Bool.eq_false_iff.mpr fun hmark => ?_
    rw [isDigit_of_isMark hmark] at h
    cases h
  have hother : ∀ d : Char, d.isDigit = false → c ≠ d := by
    rintro d hd rfl
    rw [hd] at h
    cases h
  rw [token?, hmark]
  · rfl
  all_goals simp [hother]

theorem token?_writeInt {n : Int} {rest : List Char} (hrest : EndsNumber rest)
    (hsize : isHuge n.natAbs 0 = false) :
    token? (writeInt n ++ rest) = some (.atom (.int n), rest) := by
  cases n with
  | ofNat n =>
      obtain ⟨c, s, hs, hc⟩ := exists_cons_writeNat n
      have h := numberToken?_writeNat false (n := n) hrest hsize nofun
      rw [writeInt]
      rw [hs, List.cons_append] at h ⊢
      exact (token?_digit hc _).trans h
  | negSucc n => exact numberToken?_writeNat true hrest hsize fun _ => Nat.succ_ne_zero n

end RecordQuery.Json
