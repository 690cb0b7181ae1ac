import Mathlib.Data.List.Forall2
import RecordQuery.Proofs.Predicate.Like
import RecordQuery.Proofs.Text.Pattern

namespace RecordQuery

def LikeToken.Takes : LikeToken → List Char → Prop
  | anyRun, _ => True
  | anyOne, piece => ∃ c, piece = [c]
  | exactly c, piece => piece = [c]

namespace Like

/-- The escape character takes the character behind it as it is, whatever the two are, and comes
before the wildcards. -/
inductive Reads (escape : Option Char) : List Char → List LikeToken → Prop
  | nil : Reads escape [] []
  | escaped {e c : Char} {rest : List Char} {ts : List LikeToken} :
      escape = some e → Reads escape rest ts → Reads escape (e :: c :: rest) (.exactly c :: ts)
  | anyRun {rest : List Char} {ts : List LikeToken} :
      escape ≠ some '%' → Reads escape rest ts → Reads escape ('%' :: rest) (.anyRun :: ts)
  | anyOne {rest : List Char} {ts : List LikeToken} :
      escape ≠ some '_' → Reads escape rest ts → Reads escape ('_' :: rest) (.anyOne :: ts)
  | ordinary {c : Char} {rest : List Char} {ts : List LikeToken} :
      escape ≠ some c → c ≠ '%' → c ≠ '_' → Reads escape rest ts →
        Reads escape (c :: rest) (.exactly c :: ts)

def Dangles (escape : Option Char) (pattern : List Char) : Prop :=
  ∃ front ts e, Reads escape front ts ∧ escape = some e ∧ pattern = front ++ [e]

variable {escape : Option Char} {pattern front : List Char} {ts : List LikeToken}

theorem Reads.plain {c : Char} (hc : escape ≠ some c) (h : Reads escape pattern ts) :
    Reads escape (c :: pattern) (plainToken c :: ts) := by
  by_cases hrun : c = '%'
  · subst hrun
    exact .anyRun hc h
  by_cases hone : c = '_'
  · subst hone
    exact .anyOne hc h
  rw [plainToken_exactly hrun hone]
  exact .ordinary hc hrun hone h

theorem Reads.tokens?_append (h : Reads escape front ts) (rest : List Char) :
    tokens? escape (front ++ rest) = (tokens? escape rest).map (ts ++ ·) := by
  have hcons : ∀ (t : LikeToken) (ts : List LikeToken) (o : Option (List LikeToken)),
      (o.map (ts ++ ·)).map (t :: ·) = o.map (t :: ts ++ ·) := by
    intro t ts o
    rw [Option.map_map]
    rfl
  induction h with
  | nil => simp
  | escaped he _ ih => rw [List.cons_append, List.cons_append, tokens?_escaped he, ih, hcons]
  | anyRun hrun _ ih =>
      rw [List.cons_append, tokens?_plain hrun, ih, hcons]
      rfl
  | anyOne hone _ ih =>
      rw [List.cons_append, tokens?_plain hone, ih, hcons]
      rfl
  | ordinary hc hrun hone _ ih =>
      rw [List.cons_append, tokens?_plain hc, ih, hcons, plainToken_exactly hrun hone]

theorem tokens?_eq_some_iff : tokens? escape pattern = some ts ↔ Reads escape pattern ts := by
  constructor
  · intro h
    induction pattern using tokens?.induct escape generalizing ts with
    | case1 =>
        obtain rfl := Option.some.inj h
        exact .nil
    | case2 e he =>
        rw [tokens?, if_pos he] at h
        cases h
    | case3 c hc =>
        rw [tokens?, if_neg hc] at h
        obtain rfl := Option.some.inj h
        exact .plain hc .nil
    | case4 e c rest he ih =>
        rw [tokens?_escaped he] at h
        obtain ⟨us, hus, rfl⟩ := Option.map_eq_some_iff.mp h
        exact .escaped he (ih hus)
    | case5 c d rest hc ih =>
        rw [tokens?_plain hc] at h
        obtain ⟨us, hus, rfl⟩ := Option.map_eq_some_iff.mp h
        exact .plain hc (ih hus)
  · intro h
    have hread := h.tokens?_append []
    rw [List.append_nil] at hread
    exact hread.trans (congrArg some (List.append_nil ts))

theorem tokens?_eq_none_iff : tokens? escape pattern = none ↔ Dangles escape pattern := by
  constructor
  · intro h
    induction pattern using tokens?.induct escape with
    | case1 => cases h
    | case2 e he => exact ⟨[], [], e, .nil, he, rfl⟩
    | case3 c hc =>
        rw [tokens?, if_neg hc] at h
        cases h
    | case4 e c rest he ih =>
        rw [tokens?_escaped he, Option.map_eq_none_iff] at h
        obtain ⟨front, ts, d, hfront, hd, rfl⟩ := ih h
        exact ⟨e :: c :: front, _, d, .escaped he hfront, hd, rfl⟩
    | case5 c d rest hc ih =>
        rw [tokens?_plain hc, Option.map_eq_none_iff] at h
        obtain ⟨front, ts, e, hfront, he, hrest⟩ := ih h
        exact ⟨c :: front, _, e, .plain hc hfront, he, congrArg (c :: ·) hrest⟩
  · rintro ⟨front, ts, e, hfront, he, rfl⟩
    rw [hfront.tokens?_append, tokens?, if_pos he]
    rfl

def Pieced (ts : List LikeToken) (s : List Char) : Prop :=
  ∃ pieces, List.Forall₂ LikeToken.Takes ts pieces ∧ s = pieces.flatten

variable {s : List Char}

theorem pieced_cons {t : LikeToken} :
    Pieced (t :: ts) s ↔ ∃ piece rest, s = piece ++ rest ∧ t.Takes piece ∧ Pieced ts rest := by
  constructor
  · rintro ⟨pieces, hpieces, rfl⟩
    obtain ⟨piece, pieces, ht, hts, rfl⟩ := List.forall₂_cons_left_iff.mp hpieces
    exact ⟨piece, pieces.flatten, rfl, ht, pieces, hts, rfl⟩
  · rintro ⟨piece, rest, rfl, ht, pieces, hts, rfl⟩
    exact ⟨piece :: pieces, .cons ht hts, rfl⟩

theorem matches_iff_pieced : Matches ts s ↔ Pieced ts s := by
  induction ts generalizing s with
  | nil =>
      constructor
      · rintro rfl
        exact ⟨[], .nil, rfl⟩
      · rintro ⟨pieces, hpieces, rfl⟩
        cases hpieces
        rfl
  | cons t ts ih =>
      rw [pieced_cons]
      cases t with
      | anyRun => simp only [Matches, LikeToken.Takes, ih, true_and]
      | anyOne =>
          constructor
          · rintro ⟨c, rest, rfl, h⟩
            exact ⟨[c], rest, rfl, ⟨c, rfl⟩, ih.mp h⟩
          · rintro ⟨piece, rest, rfl, ⟨c, rfl⟩, h⟩
            exact ⟨c, rest, rfl, ih.mpr h⟩
      | exactly c =>
          constructor
          · rintro ⟨rest, rfl, h⟩
            exact ⟨[c], rest, rfl, rfl, ih.mp h⟩
          · rintro ⟨piece, rest, rfl, rfl, h⟩
            exact ⟨rest, rfl, ih.mpr h⟩

end Like

end RecordQuery
