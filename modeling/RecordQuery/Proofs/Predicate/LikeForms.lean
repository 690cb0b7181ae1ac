import RecordQuery.Proofs.Predicate.Meaning
import RecordQuery.Proofs.Predicate.Pieces
import RecordQuery.Proofs.Time.StoredOrder

namespace RecordQuery

namespace Like

variable {ts : List LikeToken} {s u : List Char} {c : Char}

theorem mem_of_matches (hc : .exactly c ∈ ts) (h : Matches ts s) : c ∈ s := by
  induction ts generalizing s with
  | nil => cases hc
  | cons t ts ih =>
      cases t with
      | anyRun =>
          obtain ⟨run, rest, rfl, hrest⟩ := h
          exact List.mem_append_right run (ih (by simpa using hc) hrest)
      | anyOne =>
          obtain ⟨d, rest, rfl, hrest⟩ := h
          exact List.mem_cons_of_mem d (ih (by simpa using hc) hrest)
      | exactly d =>
          obtain ⟨rest, rfl, hrest⟩ := h
          rcases List.mem_cons.mp hc with heq | hc
          · obtain rfl := LikeToken.exactly.inj heq
            exact List.mem_cons_self ..
          · exact List.mem_cons_of_mem d (ih hc hrest)

theorem matches_wildcards (hwild : ∀ c, .exactly c ∉ ts) : Matches ts s ↔
    ts.count .anyOne ≤ s.length ∧ (.anyRun ∈ ts ∨ s.length = ts.count .anyOne) := by
  induction ts generalizing s with
  | nil => simp [Matches]
  | cons t ts ih =>
      have hrest : ∀ c, .exactly c ∉ ts := fun c hc => hwild c (List.mem_cons_of_mem t hc)
      cases t with
      | anyRun =>
          simp only [Matches, ih hrest]
          constructor
          · rintro ⟨run, rest, rfl, hcount, -⟩
            simp only [List.length_append, List.count_cons_of_ne, ne_eq, reduceCtorEq,
              not_false_eq_true, List.mem_cons, true_or, and_true]
            omega
          · rintro ⟨hcount, -⟩
            rw [List.count_cons_of_ne (by decide)] at hcount
            refine ⟨s.take (s.length - ts.count .anyOne), s.drop (s.length - ts.count .anyOne),
              (List.take_append_drop ..).symm, ?_⟩
            rw [List.length_drop]
            omega
      | anyOne =>
          cases s with
          | nil => simp [Matches]
          | cons d s => simp [Matches, ih hrest]
      | exactly d => exact absurd (List.mem_cons_self ..) (hwild d)

theorem matches_all (hs : s.length = 1) (hu : 1 < u.length) (hdisjoint : ∀ c ∈ s, c ∉ u)
    (h : Matches ts s) (h' : Matches ts u) {v : List Char} (hv : v ≠ []) : Matches ts v := by
  have hwild : ∀ c, .exactly c ∉ ts :=
    fun c hc => hdisjoint c (mem_of_matches hc h) (mem_of_matches hc h')
  rw [matches_wildcards hwild] at h h' ⊢
  have hrun : .anyRun ∈ ts := h'.2.resolve_right (by omega)
  have hpos : 0 < v.length := List.length_pos_iff.mpr hv
  exact ⟨by omega, .inl hrun⟩

theorem takes_reverse {t : LikeToken} (h : t.Takes s) : t.Takes s.reverse := by
  cases t with
  | anyRun => trivial
  | anyOne =>
      obtain ⟨c, rfl⟩ := h
      exact ⟨c, rfl⟩
  | exactly c =>
      obtain rfl : s = [c] := h
      rfl

theorem Pieced.reverse (h : Pieced ts s) : Pieced ts.reverse s.reverse := by
  obtain ⟨pieces, hpieces, rfl⟩ := h
  refine ⟨(pieces.map List.reverse).reverse, ?_, List.reverse_flatten⟩
  rw [List.forall₂_reverse_iff, List.forall₂_map_right_iff]
  exact hpieces.imp fun _ _ => takes_reverse

theorem pieced_reverse : Pieced ts.reverse s.reverse ↔ Pieced ts s := by
  refine ⟨fun h => ?_, Pieced.reverse⟩
  simpa using h.reverse

def Indifferent (ts : List LikeToken) : Prop :=
  ∃ core, ts = .anyRun :: core ∧
    ∀ t, core.find? (· != .anyRun) = some t → ∃ c, c ≠ '\'' ∧ t = .exactly c

theorem Indifferent.matches_cons (h : Indifferent ts) : Matches ts ('\'' :: s) ↔ Matches ts s := by
  obtain ⟨core, rfl, hcore⟩ := h
  rw [matches_anyRun_cons, or_iff_right_iff_imp]
  intro h
  induction core with
  | nil => cases h
  | cons t core ih =>
      cases t with
      | anyRun =>
          have hrest : Matches (.anyRun :: core) s :=
            (matches_anyRun_cons.mp h).elim (ih hcore) id
          exact ⟨[], s, rfl, hrest⟩
      | anyOne =>
          obtain ⟨c, -, hc⟩ := hcore .anyOne rfl
          cases hc
      | exactly d =>
          obtain ⟨c, hne, hc⟩ := hcore (.exactly d) rfl
          obtain ⟨rest, hquote, -⟩ := h
          obtain rfl := LikeToken.exactly.inj hc
          exact absurd (List.cons.inj hquote).1.symm hne

theorem Indifferent.pieced_cons (h : Indifferent ts) : Pieced ts ('\'' :: s) ↔ Pieced ts s := by
  rw [← matches_iff_pieced, h.matches_cons, matches_iff_pieced]

def quoted (s : List Char) : List Char := '\'' :: s ++ ['\'']

theorem reverse_quoted (s : List Char) : (quoted s).reverse = quoted s.reverse := by
  simp [quoted]

theorem pieced_quoted (h : Indifferent ts) (h' : Indifferent ts.reverse) :
    Pieced ts (quoted s) ↔ Pieced ts s :=
  calc Pieced ts (quoted s)
      ↔ Pieced ts (s ++ ['\'']) := h.pieced_cons
    _ ↔ Pieced ts.reverse ('\'' :: s.reverse) := by rw [← pieced_reverse, List.reverse_concat]
    _ ↔ Pieced ts.reverse s.reverse := h'.pieced_cons
    _ ↔ Pieced ts s := pieced_reverse

theorem head?_of_pieced (hhead : ts.head? = some (.exactly c)) (h : Pieced ts s) :
    s.head? = some c := by
  obtain ⟨rest, rfl⟩ := List.head?_eq_some_iff.mp hhead
  obtain ⟨tail, rfl, -⟩ := matches_iff_pieced.mpr h
  rfl

theorem not_pieced_quoted (hend : ts.head? = some (.exactly c) ∨ ts.getLast? = some (.exactly c))
    (hplain : '\'' ∉ s) (h : Pieced ts s) : ¬Pieced ts (quoted s) := by
  intro hquoted
  have hfirst : ∀ {ts s}, ts.head? = some (.exactly c) → '\'' ∉ s → Pieced ts s →
      Pieced ts (quoted s) → False := by
    intro ts s hhead hplain h hquoted
    have hquote : '\'' = c := Option.some.inj (head?_of_pieced hhead hquoted)
    have hmem : c ∈ s := List.mem_of_mem_head? (head?_of_pieced hhead h)
    exact hplain (hquote ▸ hmem)
  rcases hend with hhead | hlast
  · exact hfirst hhead hplain h hquoted
  · rw [← List.head?_reverse] at hlast
    rw [← pieced_reverse, reverse_quoted] at hquoted
    exact hfirst hlast (by simpa using hplain) h.reverse hquoted

end Like

open RecordQuery.Time

def Row.storedAt (row : Row) (column : String) : Row :=
  row.put column (row.value column).storageForm

variable {row : Row} {e : Expr}

theorem Row.value_storedAt (row : Row) (column : String) :
    (row.storedAt column).value column = (row.value column).storageForm := by
  rw [value, storedAt, Keyed.get?_put, if_pos rfl, Option.getD_some]

namespace Expr

def folded : Expr → List Char → List Char
  | field _, s => s
  | lower inner, s => Text.lower (inner.folded s)

theorem value_of_text {s : String} (h : Row.value row e.column = .text s) :
    e.value row = .text (String.ofList (e.folded s.toList)) := by
  induction e with
  | field name => rw [value, folded, String.ofList_toList, ← h, column]
  | lower inner ih =>
      rw [value, ih h, folded]
      simp only [String.toList_ofList]

theorem value_of_other (h : ∀ s, Row.value row e.column ≠ .text s) :
    e.value row = Row.value row e.column := by
  induction e with
  | field name => rfl
  | lower inner ih =>
      rw [value, ih h]
      split
      · rename_i s hs
        exact absurd hs (h s)
      · rfl

end Expr

namespace Predicate

open Like

variable {ts : List LikeToken} {escape : Option Char} {pattern : String} {params : Parameters}

theorem evaluate_like_text (params : Parameters) (hread : Reads escape pattern.toList ts)
    {s : List Char} (hs : (e.value row).likeText = some s) :
    ∃ b, (like e pattern escape).evaluate params row = .ok (.ofBool b) ∧
      (b = true ↔ Pieced ts s) := by
  have htokens := tokens?_eq_some_iff.mpr hread
  have hclosed : (like e pattern escape).Closed params := ⟨ts, htokens⟩
  refine ⟨fits exact ts s, ?_, fits_iff.trans matches_iff_pieced⟩
  rw [evaluate_eq row hclosed]
  simp only [meaning, hs, htokens]

theorem evaluate_like_eq_iff (hread : Reads escape pattern.toList ts) {row' : Row}
    {s u : List Char} (hs : (e.value row).likeText = some s)
    (hu : (e.value row').likeText = some u) :
    (like e pattern escape).evaluate params row' = (like e pattern escape).evaluate params row ↔
      (Pieced ts u ↔ Pieced ts s) := by
  obtain ⟨b, hb, hbs⟩ := evaluate_like_text params hread hs
  obtain ⟨d, hd, hdu⟩ := evaluate_like_text params hread hu
  rw [hb, hd, ← hbs, ← hdu]
  cases b <;> cases d <;> simp [Truth.ofBool]

def LikeAgrees (e : Expr) (pattern : String) (escape : Option Char) (params : Parameters)
    (row : Row) : Prop :=
  (like e pattern escape).evaluate params (row.storedAt e.column) =
    (like e pattern escape).evaluate params row

theorem likeAgrees_bool_iff (hread : Reads escape pattern.toList ts) {b : Bool}
    (hvalue : Row.value row e.column = .bool b) :
    LikeAgrees e pattern escape params row ↔
      (Pieced ts (Value.int (Value.flag b)).write ↔ Pieced ts (Value.bool b).write) := by
  have hkept : Row.value (row.storedAt e.column) e.column = .int (Value.flag b) := by
    rw [Row.value_storedAt, hvalue, Value.storageForm]
  apply evaluate_like_eq_iff hread
  · rw [Expr.value_of_other (by simp [hvalue]), hvalue]
    rfl
  · rw [Expr.value_of_other (by simp [hkept]), hkept]
    rfl

theorem likeAgrees_time_iff (hread : Reads escape pattern.toList ts) {t : Instant}
    (hvalue : Row.value row e.column = .time t) :
    LikeAgrees e pattern escape params row ↔
      (Pieced ts (e.folded t.stored.toList) ↔ Pieced ts (quoted t.stored.toList)) := by
  have hkept : Row.value (row.storedAt e.column) e.column = .text t.stored := by
    rw [Row.value_storedAt, hvalue, Value.storageForm]
  apply evaluate_like_eq_iff hread
  · rw [Expr.value_of_other (by simp [hvalue]), hvalue, Instant.stored, String.toList_ofList]
    rfl
  · rw [Expr.value_of_text hkept, Value.likeText, String.toList_ofList]

theorem flag_apart (b : Bool) :
    ∀ c ∈ (Value.int (Value.flag b)).write, c ∉ (Value.bool b).write := by
  cases b with
  | false =>
      have hdigit : (Value.int (Value.flag false)).write = ['0'] := by decide
      rw [hdigit]
      simp [Value.write]
  | true =>
      have hdigit : (Value.int (Value.flag true)).write = ['1'] := by decide
      rw [hdigit]
      simp [Value.write]

theorem forall_pieced_of_flag {b : Bool} (hword : Pieced ts (Value.bool b).write)
    (hdigit : Pieced ts (Value.int (Value.flag b)).write) {s : List Char} (hs : s ≠ []) :
    Pieced ts s := by
  rw [← matches_iff_pieced] at hword hdigit ⊢
  refine matches_all ?_ ?_ (flag_apart b) hdigit hword hs <;> cases b <;> decide

theorem like_forms_exact (hread : Reads escape pattern.toList ts) (e : Expr) (params : Parameters)
    (row : Row) :
    (∃ shown kept, (like e pattern escape).evaluate params row = .ok shown ∧
        (like e pattern escape).evaluate params (row.storedAt e.column) = .ok kept) ∧
      (∀ b, Row.value row e.column = .bool b →
        (LikeAgrees e pattern escape params row ↔
          (∀ s, s ≠ [] → Pieced ts s) ∨
            ¬Pieced ts (Value.bool b).write ∧ ¬Pieced ts (Value.int (Value.flag b)).write)) ∧
      ∀ t, Row.value row e.column = .time t →
        (LikeAgrees e pattern escape params row ↔
          (Pieced ts (e.folded t.stored.toList) ↔ Pieced ts (quoted t.stored.toList))) ∧
        (e = .field e.column →
          (Indifferent ts → Indifferent ts.reverse → LikeAgrees e pattern escape params row) ∧
            ∀ c, ts.head? = some (.exactly c) ∨ ts.getLast? = some (.exactly c) →
              (LikeAgrees e pattern escape params row ↔
                ¬Pieced ts t.stored.toList ∧ ¬Pieced ts (quoted t.stored.toList))) := by
  have hclosed : (like e pattern escape).Closed params := ⟨ts, tokens?_eq_some_iff.mpr hread⟩
  refine ⟨⟨_, _, evaluate_eq row hclosed, evaluate_eq _ hclosed⟩, fun b hvalue => ?_,
    fun t hvalue => ⟨likeAgrees_time_iff hread hvalue, fun hfield => ?_⟩⟩
  · rw [likeAgrees_bool_iff hread hvalue]
    constructor
    · intro hsame
      by_cases hword : Pieced ts (Value.bool b).write
      · exact .inl fun s hs => forall_pieced_of_flag hword (hsame.mpr hword) hs
      · exact .inr ⟨hword, hword ∘ hsame.mp⟩
    · rintro (hall | ⟨hword, hdigit⟩)
      · refine iff_of_true (hall _ ?_) (hall _ ?_) <;> cases b <;> decide
      · exact iff_of_false hdigit hword
  · have hfolded : e.folded t.stored.toList = t.stored.toList := by rw [hfield, Expr.folded]
    rw [likeAgrees_time_iff hread hvalue, hfolded]
    refine ⟨fun hleft hright => (pieced_quoted hleft hright).symm, fun c hend => ?_⟩
    constructor
    · intro hsame
      have hstored : ¬Pieced ts t.stored.toList := fun h =>
        not_pieced_quoted hend (Instant.not_mem_stored rfl (by decide)) h (hsame.mp h)
      exact ⟨hstored, hstored ∘ hsame.mpr⟩
    · exact fun h => iff_of_false h.1 h.2

def firstEntry : Row := .ofList [("open", .bool true), ("at", .time .epoch)]

theorem like_forms_exact_of_firstEntry :
    let inner : List LikeToken :=
      [.anyRun, .exactly '7', .exactly '0', .exactly '-', .anyOne, .exactly '1', .anyRun]
    Reads none "%70-_1%".toList inner ∧ Reads none "_%".toList [.anyOne, .anyRun] ∧
      LikeAgrees (.field "at") "%70-_1%" none .empty firstEntry ∧
      LikeAgrees (.field "open") "_%" none .empty firstEntry := by
  intro inner
  have hinner : Reads none "%70-_1%".toList inner := tokens?_eq_some_iff.mp (by decide)
  have hany : Reads none "_%".toList [.anyOne, .anyRun] := tokens?_eq_some_iff.mp (by decide)
  have hleft : Indifferent inner := by
    refine ⟨_, rfl, fun t ht => ⟨'7', by decide, ?_⟩⟩
    exact (Option.some.inj ht).symm
  have hright : Indifferent inner.reverse := by
    refine ⟨_, rfl, fun t ht => ⟨'1', by decide, ?_⟩⟩
    exact (Option.some.inj ht).symm
  have hfull : ∀ s, s ≠ [] → Pieced [.anyOne, .anyRun] s := by
    intro s hs
    obtain ⟨c, rest, rfl⟩ := List.exists_cons_of_ne_nil hs
    exact matches_iff_pieced.mp ⟨c, rest, rfl, rest, [], (List.append_nil rest).symm, rfl⟩
  obtain ⟨-, -, htime⟩ := like_forms_exact hinner (.field "at") .empty firstEntry
  obtain ⟨-, hflag, -⟩ := like_forms_exact hany (.field "open") .empty firstEntry
  refine ⟨hinner, hany, ?_, (hflag true (by decide +kernel)).mpr (.inl hfull)⟩
  exact ((htime .epoch (by decide +kernel)).2 rfl).1 hleft hright

theorem forms_differ :
    (like (.field "at") "1970-%" none).evaluate .empty firstEntry = .ok .no ∧
      (like (.field "at") "1970-%" none).evaluate .empty (firstEntry.storedAt "at") = .ok .yes ∧
      (like (.field "open") "1" none).evaluate .empty firstEntry = .ok .no ∧
      (like (.field "open") "1" none).evaluate .empty (firstEntry.storedAt "open") = .ok .yes := by
  decide +kernel

end Predicate

end RecordQuery
