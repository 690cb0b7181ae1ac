import Mathlib.Tactic.Common
import RecordQuery.Predicate.Like

namespace RecordQuery.Like

variable {same : Char → Char → Bool} {ts : List LikeToken} {c : Char} {s : List Char}

def Matches : List LikeToken → List Char → Prop
  | [], s => s = []
  | .anyRun :: ts, s => ∃ run rest, s = run ++ rest ∧ Matches ts rest
  | .anyOne :: ts, s => ∃ c rest, s = c :: rest ∧ Matches ts rest
  | .exactly c :: ts, s => ∃ rest, s = c :: rest ∧ Matches ts rest

theorem above_cons {b : Bool} {marks : List Bool} (h : marks ≠ []) :
    above (b :: marks) = (b || (above marks).headD false) :: above marks := by
  obtain ⟨m, marks, rfl⟩ := List.exists_cons_of_ne_nil h
  rw [above]
  cases habove : above (m :: marks) with
  | nil =>
      unfold above at habove
      split at habove <;> cases habove
  | cons d rest => rfl

theorem marked_nil (ts : List LikeToken) : marked same [] ts = [fits same ts []] := by
  induction ts with
  | nil => rfl
  | cons t ts ih =>
      cases t with
      | anyRun => rw [fits, marked, ih, above, above, List.headD_cons]
      | anyOne => rfl
      | exactly d => rfl

theorem marked_ne_nil (s : List Char) (ts : List LikeToken) : marked same s ts ≠ [] := by
  intro h
  cases s with
  | nil =>
      rw [marked_nil] at h
      cases h
  | cons c s =>
      induction ts with
      | nil => cases h
      | cons t ts ih =>
          cases t with
          | anyRun =>
              obtain ⟨m, marks, hmarks⟩ := List.exists_cons_of_ne_nil ih
              rw [marked, hmarks, above] at h
              split at h <;> cases h
          | anyOne =>
              obtain ⟨m, marks, hmarks⟩ := List.exists_cons_of_ne_nil ih
              rw [marked, hmarks] at h
              cases h
          | exactly d =>
              obtain ⟨m, marks, hmarks⟩ := List.exists_cons_of_ne_nil ih
              rw [marked, hmarks] at h
              cases h

theorem marked_cons (c : Char) (s : List Char) (ts : List LikeToken) :
    marked same (c :: s) ts = fits same ts (c :: s) :: marked same s ts := by
  induction ts with
  | nil => rfl
  | cons t ts ih =>
      cases t with
      | anyRun => rw [fits, marked, marked, ih, above_cons (marked_ne_nil s ts), List.headD_cons]
      | anyOne => rw [fits, marked, marked, ih, before, List.headD_cons]
      | exactly d => rw [fits, marked, marked, ih, before, List.headD_cons]

theorem fits_anyRun_cons (c : Char) (s : List Char) :
    fits same (.anyRun :: ts) (c :: s) =
      (fits same ts (c :: s) || fits same (.anyRun :: ts) s) := by
  rw [fits, marked, marked_cons, above_cons (marked_ne_nil s ts), List.headD_cons]
  rfl

theorem fits_anyRun_nil : fits same (.anyRun :: ts) [] = fits same ts [] := by
  rw [fits, marked, marked_nil]
  rfl

theorem fits_anyOne_cons (c : Char) (s : List Char) :
    fits same (.anyOne :: ts) (c :: s) = fits same ts s := by
  rw [fits, marked, marked_cons, before, List.headD_cons, Bool.true_and]
  rfl

theorem fits_exactly_cons (c d : Char) (s : List Char) :
    fits same (.exactly c :: ts) (d :: s) = (same c d && fits same ts s) := by
  rw [fits, marked, marked_cons, before, List.headD_cons]
  rfl

theorem matches_anyRun_cons : Matches (.anyRun :: ts) (c :: s) ↔
    Matches ts (c :: s) ∨ Matches (.anyRun :: ts) s := by
  constructor
  · rintro ⟨run, rest, heq, hrest⟩
    cases run with
    | nil => exact .inl (heq ▸ hrest)
    | cons d run => exact .inr ⟨run, rest, (List.cons.inj heq).2, hrest⟩
  · rintro (h | ⟨run, rest, rfl, hrest⟩)
    · exact ⟨[], c :: s, rfl, h⟩
    · exact ⟨c :: run, rest, rfl, hrest⟩

theorem fits_iff : fits exact ts s = true ↔ Matches ts s := by
  induction ts generalizing s with
  | nil => rw [fits_nil, List.isEmpty_iff, Matches]
  | cons t ts ih =>
      cases t with
      | anyRun =>
          induction s with
          | nil =>
              rw [fits_anyRun_nil, ih]
              constructor
              · exact fun h => ⟨[], [], rfl, h⟩
              · rintro ⟨run, rest, heq, hrest⟩
                rwa [(List.append_eq_nil_iff.mp heq.symm).2] at hrest
          | cons c s ihs =>
              rw [fits_anyRun_cons, Bool.or_eq_true, ih, ihs, matches_anyRun_cons]
      | anyOne =>
          cases s with
          | nil => simp [fits, marked, before, Matches]
          | cons c s => simp [fits_anyOne_cons, ih, Matches]
      | exactly d =>
          cases s with
          | nil => simp [fits, marked, before, Matches]
          | cons c s =>
              rw [fits_exactly_cons, Bool.and_eq_true, ih, exact, beq_iff_eq, Matches]
              constructor
              · rintro ⟨rfl, h⟩
                exact ⟨s, rfl, h⟩
              · rintro ⟨rest, heq, h⟩
                obtain ⟨rfl, rfl⟩ := List.cons.inj heq
                exact ⟨rfl, h⟩

theorem matches_word (w : List Char) :
    Matches (w.map .exactly ++ ts) s ↔ ∃ rest, s = w ++ rest ∧ Matches ts rest := by
  induction w generalizing s with
  | nil => simp
  | cons c w ih =>
      constructor
      · rintro ⟨tail, rfl, htail⟩
        obtain ⟨rest, rfl, hrest⟩ := ih.mp htail
        exact ⟨rest, rfl, hrest⟩
      · rintro ⟨rest, rfl, hrest⟩
        exact ⟨w ++ rest, rfl, ih.mpr ⟨rest, rfl, hrest⟩⟩

end RecordQuery.Like
