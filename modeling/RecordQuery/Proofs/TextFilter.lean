import Mathlib.Data.List.TakeWhile
import Mathlib.Data.Set.Function
import RecordQuery.Proofs.Data.Except
import RecordQuery.Proofs.Json.Record
import RecordQuery.TextFilter

namespace RecordQuery

open RecordQuery.Json

namespace Matching

variable {name : String} {m : Matching}

theorem ofName?_eq_some : ofName? name = some m ↔ m.name = name := by
  constructor
  · intro h
    have hname := List.find?_some h
    exact eq_of_beq hname
  · rintro rfl
    cases m <;> rfl

theorem ofName_eq_ok : ofName name = .ok m ↔ m.name = name := by
  rw [← ofName?_eq_some, ofName, ← ofName?]
  cases ofName? name <;> simp

theorem ofName_eq_error {e : FormatError} :
    ofName name = .error e ↔ (∀ m : Matching, m.name ≠ name) ∧ e = .unknownMatching name := by
  have hnone : ofName? name = none ↔ ∀ m : Matching, m.name ≠ name := by
    rw [Option.eq_none_iff_forall_ne_some]
    exact forall_congr' fun m => not_congr ofName?_eq_some
  rw [← hnone, ofName, ← ofName?]
  cases ofName? name <;> simp [eq_comm]

theorem colon_not_mem_name (m : Matching) : ':' ∉ m.name.toList := by
  cases m <;> decide

end Matching

namespace TextFilter

def writeValue : Option String → List Char
  | none => []
  | some v => ' ' :: v.toList

def readValue? : List Char → Option (Option String)
  | [] => some none
  | ' ' :: v => some (some (String.ofList v))
  | _ => none

section

variable {s : String} {f : TextFilter} {front rest : List Char} {e : FormatError}

theorem write_eq (f : TextFilter) :
    f.write = f.matching.name.toList ++ ':' :: writeValue f.value := by
  unfold write writeValue
  cases f.value <;> rfl

theorem readValue?_writeValue (v : Option String) : readValue? (writeValue v) = some v := by
  cases v with
  | none => rfl
  | some v => rw [writeValue, readValue?, String.ofList_toList]

theorem readValue?_eq_some {v : Option String} :
    readValue? rest = some v ↔ rest = writeValue v := by
  refine ⟨fun h => ?_, by rintro rfl; exact readValue?_writeValue v⟩
  unfold readValue? at h
  split at h
  · rw [← Option.some.inj h, writeValue]
  · rw [← Option.some.inj h, writeValue, String.toList_ofList]
  · cases h

theorem readValue?_eq_none : readValue? rest = none ↔ rest ≠ [] ∧ rest.head? ≠ some ' ' := by
  unfold readValue?
  split
  · simp
  · simp
  · rename_i hnil hspace
    refine iff_of_true rfl ⟨hnil, fun h => ?_⟩
    obtain ⟨v, hv⟩ := List.head?_eq_some_iff.mp h
    exact hspace v hv

theorem readChars_of_not_mem (h : ':' ∉ front) :
    readChars front = .error (.invalidTextFilter (String.ofList front)) := by
  have hdrop : front.dropWhile (· != ':') = [] := by
    refine List.dropWhile_eq_nil_iff.mpr fun c hc => bne_iff_ne.mpr ?_
    rintro rfl
    exact h hc
  rw [readChars, hdrop]

theorem readChars_append (h : ':' ∉ front) (rest : List Char) :
    readChars (front ++ ':' :: rest) = Matching.ofName (String.ofList front) >>= fun m =>
      match readValue? rest with
      | some v => .ok ⟨v, m⟩
      | none => .error (.invalidTextFilter (String.ofList (front ++ ':' :: rest))) := by
  have hfront : ∀ c ∈ front, (c != ':') = true := by
    refine fun c hc => bne_iff_ne.mpr ?_
    rintro rfl
    exact h hc
  have hdrop : (front ++ ':' :: rest).dropWhile (· != ':') = ':' :: rest := by
    rw [List.dropWhile_append_of_pos hfront]
    rfl
  have htake : (front ++ ':' :: rest).takeWhile (· != ':') = front := by
    rw [List.takeWhile_append_of_pos hfront]
    simp
  rw [readChars, hdrop, htake]
  simp only
  cases Matching.ofName (String.ofList front) with
  | error e => rfl
  | ok m =>
      simp only [bind, Except.bind, readValue?]
      split <;> simp_all

theorem read_display (f : TextFilter) : read f.display = .ok f := by
  have hname : Matching.ofName (String.ofList f.matching.name.toList) = .ok f.matching := by
    rw [String.ofList_toList, Matching.ofName_name]
  rw [read, display, String.toList_ofList, write_eq,
    readChars_append f.matching.colon_not_mem_name, hname]
  simp only [bind, Except.bind, readValue?_writeValue]

theorem display_of_read (h : read s = .ok f) : f.display = s := by
  rw [read] at h
  by_cases hcolon : ':' ∈ s.toList
  · obtain ⟨front, rest, hs, hfront⟩ := List.eq_append_cons_of_mem hcolon
    rw [hs, readChars_append hfront, bind_eq_ok] at h
    obtain ⟨m, hm, hvalue⟩ := h
    split at hvalue
    · rename_i v hv
      obtain rfl := Except.ok.inj hvalue
      rw [← String.toList_inj, display, String.toList_ofList, write_eq, hs,
        Matching.ofName_eq_ok.mp hm, String.toList_ofList, readValue?_eq_some.mp hv]
    · cases hvalue
  · rw [readChars_of_not_mem hcolon] at h
    cases h

inductive Complaint (s : String) : FormatError → Prop
  | noColon : ':' ∉ s.toList → Complaint s (.invalidTextFilter s)
  | unknownName (front rest : List Char) : s.toList = front ++ ':' :: rest → ':' ∉ front →
      (∀ m : Matching, m.name ≠ String.ofList front) →
      Complaint s (.unknownMatching (String.ofList front))
  | noSpace (m : Matching) (rest : List Char) : s.toList = m.name.toList ++ ':' :: rest →
      rest ≠ [] → rest.head? ≠ some ' ' → Complaint s (.invalidTextFilter s)

theorem read_eq_error_iff : read s = .error e ↔ Complaint s e := by
  have hcut {front rest : List Char} (hs : s.toList = front ++ ':' :: rest) (hfront : ':' ∉ front) :
      read s = .error e ↔
        ((∀ m : Matching, m.name ≠ String.ofList front) ∧
            e = .unknownMatching (String.ofList front)) ∨
          ∃ m : Matching, m.name = String.ofList front ∧ readValue? rest = none ∧
            e = .invalidTextFilter s := by
    have hback : String.ofList (front ++ ':' :: rest) = s := by rw [← hs, String.ofList_toList]
    rw [read, hs, readChars_append hfront, bind_eq_error, Matching.ofName_eq_error, hback]
    simp only [Matching.ofName_eq_ok]
    cases readValue? rest <;> simp [eq_comm]
  constructor
  · intro h
    by_cases hcolon : ':' ∈ s.toList
    · obtain ⟨front, rest, hs, hfront⟩ := List.eq_append_cons_of_mem hcolon
      rcases (hcut hs hfront).mp h with ⟨hunknown, rfl⟩ | ⟨m, hm, hvalue, rfl⟩
      · exact .unknownName front rest hs hfront hunknown
      · obtain ⟨hne, hspace⟩ := readValue?_eq_none.mp hvalue
        exact .noSpace m rest (by rw [hm, String.toList_ofList, hs]) hne hspace
    · rw [read, readChars_of_not_mem hcolon, String.ofList_toList] at h
      obtain rfl := Except.error.inj h
      exact .noColon hcolon
  · rintro (hcolon | ⟨front, rest, hs, hfront, hunknown⟩ | ⟨m, rest, hs, hne, hspace⟩)
    · rw [read, readChars_of_not_mem hcolon, String.ofList_toList]
    · exact (hcut hs hfront).mpr (.inl ⟨hunknown, rfl⟩)
    · refine (hcut hs m.colon_not_mem_name).mpr (.inr ⟨m, ?_, ?_, rfl⟩)
      · rw [String.ofList_toList]
      · exact readValue?_eq_none.mpr ⟨hne, hspace⟩

theorem text_exact :
    Set.BijOn display Set.univ {s | ∃ f, read s = .ok f} ∧
      (∀ s f, read s = .ok f ↔ f.display = s) ∧ ∀ s e, read s = .error e ↔ Complaint s e := by
  have hread : ∀ s f, read s = .ok f ↔ f.display = s :=
    fun s f => ⟨display_of_read, by rintro rfl; exact read_display f⟩
  refine ⟨⟨?_, ?_, ?_⟩, hread, fun s e => read_eq_error_iff⟩
  · exact fun f _ => ⟨f, read_display f⟩
  · intro f _ g _ hsame
    exact Except.ok.inj ((read_display f).symm.trans ((hread _ _).mpr hsame.symm))
  · rintro s ⟨f, hf⟩
    exact ⟨f, trivial, display_of_read hf⟩

example : [none, some "", some "  a: b\n"].map (display ⟨·, .like⟩) =
    ["LIKE:", "LIKE: ", "LIKE:   a: b\n"] := by
  decide

end

theorem readJson?_object {members : Members} {f : TextFilter}
    (hexact : (Json.object members).isExact = true) (hunique : (members.map (·.1)).Nodup)
    (hvalue : members.lookup "value" = some (ofOptionText f.value))
    (hmatching : members.lookup "matching" = some (.text f.matching.name)) :
    readJson? (Json.object members).display = some f := by
  have hmembers : Json.members? ["value", "matching"] (.object members) = some members :=
    if_pos (uniqueNames_of_nodup hunique _)
  have hread : members.optional "value" Json.asText = some f.value := by
    rw [Members.optional, hvalue]
    cases f.value <;> rfl
  have hname : members.withDefault "matching" .exact matchingOf? = some f.matching := by
    rw [Members.withDefault, hmatching]
    exact Matching.ofName?_eq_some.mpr rfl
  rw [readJson?, read?_display hexact, Option.bind_some, ofJson?, hmembers]
  · simp only [bind, Option.bind, hread, hname, pure]
  · intro hlist
    cases hlist

theorem shallow_ofOptionText (v : Option String) : Shallow (ofOptionText v) := by
  cases v with
  | none => exact ⟨Nat.zero_le 1, rfl, rfl⟩
  | some v => exact shallow_text v

theorem json_read_back (f : TextFilter) :
    readJson? f.sortedJson.display = some f ∧ readJson? f.json.display = some f := by
  have hvalue := shallow_ofOptionText f.value
  have hname := shallow_text f.matching.name
  constructor
  · exact readJson?_object (object_of_shallow (by simp [hvalue, hname])).2 (by simp) rfl rfl
  · exact readJson?_object (object_of_shallow (by simp [hvalue, hname])).2 (by simp) rfl rfl

end TextFilter

end RecordQuery
