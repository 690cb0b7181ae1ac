import RecordQuery.Bounds.Text
import RecordQuery.Proofs.Data.Except
import RecordQuery.Proofs.Text.Folding

namespace RecordQuery

open RecordQuery.Text

def IsPlain (c : Char) : Prop := isBlank c = false ∧ c ≠ Bounds.separator

structure Legible {α : Type} [BoundText α] (a : α) : Prop where
  given : BoundText.write a ≠ []
  plain : ∀ c ∈ BoundText.write a, IsPlain c
  read : BoundText.read (BoundText.write a) = .ok a

theorem Text.trim_eq_self {s : List Char} (h : ∀ c ∈ s, isBlank c = false) : trim s = s := by
  have hstart {s : List Char} (h : ∀ c ∈ s, isBlank c = false) : trimStart s = s := by
    cases s with
    | nil => rfl
    | cons c rest => exact List.dropWhile_cons_of_neg (by simp [h c])
  have hreverse : ∀ c ∈ s.reverse, isBlank c = false := fun c hc => h c (List.mem_reverse.mp hc)
  rw [trim, hstart h, hstart hreverse, List.reverse_reverse]

theorem Text.length_splitOn (c : Char) (s : List Char) :
    (s.splitOn c).length = s.count c + 1 := by
  unfold List.splitOn
  induction s with
  | nil => rfl
  | cons d rest ih =>
      rw [List.splitOnP_cons_eq_if_modifyHead, List.count_cons]
      split
      · rw [List.length_cons, ih]
      · rw [List.length_modifyHead, ih, Nat.add_zero]

namespace Bounds

variable {α : Type} [BoundText α]

def points (r : Bounds α) : List α := [r.start, r.stop, r.least, r.most].filterMap id

section

variable {item : List Char} {e : FormatError}

theorem readBound_eq_error : readBound (α := α) item = .error e ↔
    ∃ fault, BoundText.read (α := α) (trim item) = .error fault ∧
      e = .invalidBound (String.ofList item) fault := by
  unfold readBound
  cases BoundText.read (α := α) (trim item) <;> simp [eq_comm]

theorem readBound_eq_ok {a : α} : readBound item = .ok a ↔ BoundText.read (trim item) = .ok a := by
  unfold readBound
  cases BoundText.read (α := α) (trim item) <;> simp

theorem readOptionalBound_eq_ok {b : Option α} : readOptionalBound item = .ok b ↔
    item = [] ∧ b = none ∨ item ≠ [] ∧ ∃ a, b = some a ∧ BoundText.read (trim item) = .ok a := by
  cases item with
  | nil => simp [readOptionalBound, eq_comm]
  | cons c rest =>
      rw [readOptionalBound, map_eq_ok]
      · simp only [readBound_eq_ok, reduceCtorEq, false_and, false_or, ne_eq, not_false_eq_true,
          true_and, and_comm, eq_comm (b := b)]
      · exact nofun

theorem readOptionalBound_eq_error : readOptionalBound (α := α) item = .error e ↔
    item ≠ [] ∧ ∃ fault, BoundText.read (α := α) (trim item) = .error fault ∧
      e = .invalidBound (String.ofList item) fault := by
  cases item with
  | nil => simp [readOptionalBound]
  | cons c rest =>
      rw [readOptionalBound, ← readBound_eq_error]
      · cases readBound (α := α) (c :: rest) <;> simp [Except.map]
      · exact nofun

end

theorem readOptionalBound_write {b : Option α} (h : ∀ a, b = some a → Legible a) :
    readOptionalBound (writeOptionalBound b) = .ok b := by
  cases b with
  | none => rfl
  | some a =>
      have ha := h a rfl
      refine readOptionalBound_eq_ok.mpr (.inr ⟨ha.given, a, rfl, ?_⟩)
      rw [writeOptionalBound, trim_eq_self fun c hc => (ha.plain c hc).1, ha.read]

theorem splitOn_display {r : Bounds α} (h : ∀ a ∈ r.points, ∀ c ∈ BoundText.write a, IsPlain c) :
    r.display.toList.splitOn separator =
      [r.start, r.stop, r.least, r.most].map writeOptionalBound := by
  have hapart : ∀ item ∈ [r.start, r.stop, r.least, r.most].map writeOptionalBound,
      separator ∉ item := by
    intro item hitem
    obtain ⟨b, hb, rfl⟩ := List.mem_map.mp hitem
    cases b with
    | none => exact List.not_mem_nil
    | some a =>
        have ha := h a (List.mem_filterMap.mpr ⟨some a, hb, rfl⟩)
        exact fun hmem => (ha separator hmem).2 rfl
  rw [display, String.toList_ofList]
  exact List.splitOn_intercalate separator hapart (by simp)

section

variable {s : String} {r : Bounds α} {a b c d : List Char}

theorem readItems_eq_ok : readItems a b c d = .ok r ↔
    readOptionalBound a = .ok r.start ∧ readOptionalBound b = .ok r.stop ∧
      readOptionalBound c = .ok r.least ∧ readOptionalBound d = .ok r.most := by
  simp only [readItems, bind_eq_ok]
  constructor
  · rintro ⟨start, hstart, stop, hstop, least, hleast, most, hmost, h⟩
    obtain rfl := Except.ok.inj h
    exact ⟨hstart, hstop, hleast, hmost⟩
  · rintro ⟨hstart, hstop, hleast, hmost⟩
    exact ⟨_, hstart, _, hstop, _, hleast, _, hmost, rfl⟩

theorem readItems_eq_error {e : FormatError} : readItems (α := α) a b c d = .error e ↔
    [a, b, c, d].mapM (readOptionalBound (α := α)) = .error e := by
  simp only [readItems, List.mapM_cons, List.mapM_nil, bind_eq_error, bind_eq_ok]
  simp [pure, Except.pure]

theorem read_eq_ok_iff : read s = .ok r ↔ ∃ a b c d, s.toList.splitOn separator = [a, b, c, d] ∧
    readOptionalBound a = .ok r.start ∧ readOptionalBound b = .ok r.stop ∧
      readOptionalBound c = .ok r.least ∧ readOptionalBound d = .ok r.most := by
  rw [read, readChars]
  split
  · rename_i a b c d hsplit
    rw [readItems_eq_ok]
    constructor
    · exact fun h => ⟨a, b, c, d, hsplit, h⟩
    · rintro ⟨a', b', c', d', hsplit', h⟩
      obtain ⟨rfl, rfl, rfl, rfl⟩ := by simpa using hsplit.symm.trans hsplit'
      exact h
  · rename_i hsplit
    refine iff_of_false nofun ?_
    rintro ⟨a, b, c, d, hitems, -⟩
    exact hsplit a b c d hitems

theorem exists_read_iff : (∃ r : Bounds α, read s = .ok r) ↔
    s.toList.count separator = 3 ∧
      ∀ item ∈ s.toList.splitOn separator, ∃ b : Option α, readOptionalBound item = .ok b := by
  have hlength := length_splitOn separator s.toList
  constructor
  · rintro ⟨r, hr⟩
    obtain ⟨a, b, c, d, hsplit, hstart, hstop, hleast, hmost⟩ := read_eq_ok_iff.mp hr
    rw [hsplit] at hlength ⊢
    refine ⟨by simpa using hlength.symm, ?_⟩
    simp [hstart, hstop, hleast, hmost]
  · rintro ⟨hcount, hitems⟩
    rw [hcount] at hlength
    obtain ⟨a, b, c, d, hsplit⟩ := List.length_eq_four.mp hlength
    simp only [hsplit, List.forall_mem_cons] at hitems
    obtain ⟨⟨start, hstart⟩, ⟨stop, hstop⟩, ⟨least, hleast⟩, ⟨most, hmost⟩, -⟩ := hitems
    exact ⟨⟨start, stop, least, most⟩,
      read_eq_ok_iff.mpr ⟨a, b, c, d, hsplit, hstart, hstop, hleast, hmost⟩⟩

theorem read_eq_error_iff {e : FormatError} : read (α := α) s = .error e ↔
    s.toList.count separator ≠ 3 ∧
        e = .boundsFieldCount s (s.toList.count separator + 1) ∨
      s.toList.count separator = 3 ∧ ∃ front item back,
        s.toList.splitOn separator = front ++ item :: back ∧
          (∀ x ∈ front, ∃ b : Option α, readOptionalBound x = .ok b) ∧
          readOptionalBound (α := α) item = .error e := by
  have hlength := length_splitOn separator s.toList
  rw [read, readChars]
  split
  · rename_i a b c d hsplit
    have hcount : s.toList.count separator = 3 := by
      rw [hsplit] at hlength
      simpa using hlength.symm
    rw [readItems_eq_error, mapM_eq_error, hsplit]
    simp [hcount]
  · rename_i hsplit
    have hcount : s.toList.count separator ≠ 3 := by
      intro hcount
      rw [hcount] at hlength
      obtain ⟨a, b, c, d, hitems⟩ := List.length_eq_four.mp hlength
      exact hsplit a b c d hitems
    rw [hlength, String.ofList_toList]
    simp [hcount, eq_comm]

end

theorem read_display {r : Bounds α} (h : ∀ a ∈ r.points, Legible a) : read r.display = .ok r := by
  have hpoint {b : Option α} (hb : b ∈ [r.start, r.stop, r.least, r.most]) (a : α)
      (ha : b = some a) : Legible a :=
    h a (List.mem_filterMap.mpr ⟨b, hb, ha⟩)
  refine read_eq_ok_iff.mpr ⟨_, _, _, _, splitOn_display fun a ha => (h a ha).plain, ?_, ?_, ?_, ?_⟩
  · exact readOptionalBound_write (hpoint (by simp))
  · exact readOptionalBound_write (hpoint (by simp))
  · exact readOptionalBound_write (hpoint (by simp))
  · exact readOptionalBound_write (hpoint (by simp))

end Bounds

theorem isPlain_of_isDigit {c : Char} (h : c.isDigit = true) : IsPlain c := by
  refine ⟨not_isBlank_of_isDigit h, ?_⟩
  rintro rfl
  cases h

end RecordQuery
