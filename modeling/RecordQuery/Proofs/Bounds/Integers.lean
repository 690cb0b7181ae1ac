import RecordQuery.Proofs.Bounds.Text
import RecordQuery.Proofs.Text.Numeral

namespace RecordQuery

open RecordQuery.Text

structure IntegerBound {α : Type} [BoundText α] (value : α → Int) (ofInt : Int → α) (lo hi : Int) :
    Prop where
  lo_neg : lo < 0
  hi_nonneg : 0 ≤ hi
  lo_le : ∀ a, lo ≤ value a
  le_hi : ∀ a, value a ≤ hi
  ofInt_value : ∀ a, ofInt (value a) = a
  value_ofInt : ∀ n, lo ≤ n → n ≤ hi → value (ofInt n) = n
  write_eq : ∀ a, BoundText.write a = writeInt (value a)
  read_eq : ∀ s, BoundText.read s = (readBoundInt lo hi s).map ofInt

theorem integerBound_int64 : IntegerBound Int64.toInt Int64.ofInt Int64.minValue.toInt
    Int64.maxValue.toInt where
  lo_neg := by decide
  hi_nonneg := by decide
  lo_le := Int64.minValue_le_toInt
  le_hi := Int64.toInt_le
  ofInt_value := Int64.ofInt_toInt
  value_ofInt n hleast hmost := Int64.toInt_ofInt_of_le hleast (Int.lt_add_one_of_le hmost)
  write_eq _ := rfl
  read_eq _ := rfl

theorem integerBound_int32 : IntegerBound Int32.toInt Int32.ofInt Int32.minValue.toInt
    Int32.maxValue.toInt where
  lo_neg := by decide
  hi_nonneg := by decide
  lo_le := Int32.minValue_le_toInt
  le_hi := Int32.toInt_le
  ofInt_value := Int32.ofInt_toInt
  value_ofInt n hleast hmost := Int32.toInt_ofInt_of_le hleast (Int.lt_add_one_of_le hmost)
  write_eq _ := rfl
  read_eq _ := rfl

def Fits (lo hi : Int) (item : List Char) : Prop :=
  item = [] ∨ ∃ n, Numeral (trim item) n ∧ lo ≤ n ∧ n ≤ hi

def Says {α : Type} (value : α → Int) (item : List Char) : Option α → Prop
  | none => item = []
  | some a => Numeral (trim item) (value a)

theorem readBoundInt_eq_ok {lo hi n : Int} {s : List Char} :
    readBoundInt lo hi s = .ok n ↔ readInt lo hi s = .ok n := by
  unfold readBoundInt
  cases readInt lo hi s <;> simp

theorem readBoundInt_eq_error {lo hi : Int} {s : List Char} {e : BoundFault} :
    readBoundInt lo hi s = .error e ↔
      ∃ fault, readInt lo hi s = .error fault ∧ e = .numeral fault := by
  unfold readBoundInt
  cases readInt lo hi s <;> simp [eq_comm]

namespace IntegerBound

variable {α : Type} [BoundText α] {value : α → Int} {ofInt : Int → α} {lo hi : Int}
  (h : IntegerBound value ofInt lo hi)

include h

theorem read_eq_ok {s : List Char} {a : α} : BoundText.read s = .ok a ↔ Numeral s (value a) := by
  rw [h.read_eq, map_eq_ok]
  simp only [readBoundInt_eq_ok, readInt_eq_ok_iff h.lo_neg h.hi_nonneg]
  constructor
  · rintro ⟨n, ⟨hn, hleast, hmost⟩, rfl⟩
    rwa [h.value_ofInt n hleast hmost]
  · exact fun hn => ⟨value a, ⟨hn, h.lo_le a, h.le_hi a⟩, h.ofInt_value a⟩

theorem read_eq_error {s : List Char} {e : BoundFault} :
    BoundText.read (α := α) s = .error e ↔
      ∃ fault, readInt lo hi s = .error fault ∧ e = .numeral fault := by
  rw [h.read_eq, ← readBoundInt_eq_error]
  cases readBoundInt lo hi s <;> simp [Except.map]

theorem legible (a : α) : Legible a := by
  have hdigits (k : Nat) : ∀ c ∈ writeNat k, IsPlain c :=
    fun c hc => isPlain_of_isDigit (isDigit_of_mem_writeNat hc)
  have hgiven : ∀ n : Int, writeInt n ≠ [] := by
    intro n hnil
    have hn := numeral_writeInt n
    rw [hnil] at hn
    cases hn with
    | bare hdigits => exact hdigits.1 rfl
  refine ⟨?_, ?_, h.read_eq_ok.mpr ?_⟩ <;> rw [h.write_eq]
  · exact hgiven (value a)
  · cases value a with
    | ofNat k => exact hdigits k
    | negSucc k => exact List.forall_mem_cons.mpr ⟨⟨rfl, by decide⟩, hdigits (k + 1)⟩
  · exact numeral_writeInt (value a)

theorem readOptionalBound_iff {item : List Char} {b : Option α} :
    readOptionalBound item = .ok b ↔ Says value item b := by
  have hempty : ∀ n, ¬Numeral (trim []) n := by
    intro n hn
    cases hn with
    | bare hdigits => exact hdigits.1 rfl
  rw [Bounds.readOptionalBound_eq_ok]
  cases b with
  | none => simp [Says]
  | some a =>
      simp only [Says, h.read_eq_ok, reduceCtorEq, and_false, false_or, Option.some.injEq,
        exists_eq_left']
      refine and_iff_right_of_imp ?_
      rintro hn rfl
      exact hempty _ hn

theorem exists_readOptionalBound_iff {item : List Char} :
    (∃ b : Option α, readOptionalBound item = .ok b) ↔ Fits lo hi item := by
  simp only [h.readOptionalBound_iff, Fits]
  constructor
  · rintro ⟨b | a, hb⟩
    · exact .inl hb
    · exact .inr ⟨value a, hb, h.lo_le a, h.le_hi a⟩
  · rintro (hnil | ⟨n, hn, hleast, hmost⟩)
    · exact ⟨none, hnil⟩
    · refine ⟨some (ofInt n), ?_⟩
      rwa [Says, h.value_ofInt n hleast hmost]

theorem readOptionalBound_eq_error {item : List Char} {e : FormatError} :
    readOptionalBound (α := α) item = .error e ↔ ¬Fits lo hi item ∧
      ∃ fault, readInt lo hi (trim item) = .error fault ∧
        e = .invalidBound (String.ofList item) (.numeral fault) := by
  rw [← h.exists_readOptionalBound_iff]
  constructor
  · intro he
    obtain ⟨-, fault, hfault, rfl⟩ := Bounds.readOptionalBound_eq_error.mp he
    obtain ⟨reason, hreason, rfl⟩ := h.read_eq_error.mp hfault
    exact ⟨fun ⟨b, hb⟩ => by simp [he] at hb, reason, hreason, rfl⟩
  · rintro ⟨hunread, reason, hreason, rfl⟩
    have hfault := h.read_eq_error.mpr ⟨reason, hreason, rfl⟩
    refine Bounds.readOptionalBound_eq_error.mpr ⟨?_, _, hfault, rfl⟩
    rintro rfl
    exact hunread ⟨none, rfl⟩

end IntegerBound

namespace Bounds

structure IntegerTexts (α : Type) [BoundText α] (value : α → Int) (lo hi : Int) : Prop where
  told : ∀ r : Bounds α, read r.display = .ok r
  reads : ∀ (s : String) (r : Bounds α), read s = .ok r ↔
    ∃ a b c d, s.toList.splitOn separator = [a, b, c, d] ∧ Says value a r.start ∧
      Says value b r.stop ∧ Says value c r.least ∧ Says value d r.most
  accepted : ∀ s : String, (∃ r : Bounds α, read s = .ok r) ↔
    s.toList.count separator = 3 ∧ ∀ item ∈ s.toList.splitOn separator, Fits lo hi item
  refused : ∀ (s : String) (e : FormatError), read (α := α) s = .error e ↔
    s.toList.count separator ≠ 3 ∧ e = .boundsFieldCount s (s.toList.count separator + 1) ∨
      s.toList.count separator = 3 ∧ ∃ front item back,
        s.toList.splitOn separator = front ++ item :: back ∧ (∀ x ∈ front, Fits lo hi x) ∧
          ¬Fits lo hi item ∧ ∃ fault, readInt lo hi (trim item) = .error fault ∧
            e = .invalidBound (String.ofList item) (.numeral fault)

theorem integerTexts {α : Type} [BoundText α] {value : α → Int} {ofInt : Int → α} {lo hi : Int}
    (h : IntegerBound value ofInt lo hi) : IntegerTexts α value lo hi where
  told r := read_display fun a _ => h.legible a
  reads s r := by simp only [read_eq_ok_iff, h.readOptionalBound_iff]
  accepted s := by simp only [exists_read_iff, h.exists_readOptionalBound_iff]
  refused s e := by
    simp only [read_eq_error_iff, h.exists_readOptionalBound_iff, h.readOptionalBound_eq_error]

theorem integers_exact :
    IntegerTexts Int64 Int64.toInt Int64.minValue.toInt Int64.maxValue.toInt ∧
      IntegerTexts Int32 Int32.toInt Int32.minValue.toInt Int32.maxValue.toInt :=
  ⟨integerTexts integerBound_int64, integerTexts integerBound_int32⟩

example : read "-2147483648; +007\u3000;;9" =
    .ok (⟨some Int32.minValue, some 7, none, some 9⟩ : Bounds Int32) := by
  decide +kernel

end Bounds

end RecordQuery
