import RecordQuery.Proofs.Filter.Admission

namespace RecordQuery

variable {b : Builder} {params : Parameters} {row : Row} {column : String} {d : Option Bool}

theorem Row.isMark_of_bool? (hread : bool? row column = .ok d)
    (hint : ∀ n, value row column = .int n → n = 0 ∨ n = 1) : (value row column).IsMark := by
  rcases view_of_read? hread with ⟨hnull, -⟩ | ⟨flag, -, hview⟩
  · exact .inl hnull
  · cases hvalue : value row column with
    | null => exact .inl rfl
    | bool v => exact .inr (.inl ⟨v, rfl⟩)
    | int n =>
        obtain rfl | rfl := hint n hvalue
        · exact .inr (.inr (.inl rfl))
        · exact .inr (.inr (.inr rfl))
    | text s =>
        rw [hvalue] at hview
        cases hview
    | time t =>
        rw [hvalue] at hview
        cases hview

theorem Value.compare?_int_flag {n : Int64} {flag : Bool} :
    (Value.int n).compare? (.bool flag) = some .eq ↔ n = Value.flag flag := by
  simp [Value.compare?]

namespace Builder

theorem mark_of_meaning {flag : Bool} (h : (boolPredicate column flag).meaning params row = .yes)
    {n : Int64} (hvalue : Row.value row column = .int n) : n = 0 ∨ n = 1 := by
  rw [AuditFilter.meaning_boolPredicate, hvalue] at h
  obtain ⟨-, hnull⟩ | hequal := h
  · cases hnull
  · rw [Value.compare?_int_flag] at hequal
    cases flag with
    | false => exact .inl hequal
    | true => exact .inr hequal

theorem meaning_boolPredicate_iff (hread : Row.bool? row column = .ok d) (flag : Bool) :
    (boolPredicate column flag).meaning params row = .yes ↔
      flag = d.getD false ∧ ∀ n, Row.value row column = .int n → n = 0 ∨ n = 1 := by
  constructor
  · intro h
    have hint : ∀ n, Row.value row column = .int n → n = 0 ∨ n = 1 := fun _ => mark_of_meaning h
    exact ⟨(AuditFilter.meaning_mark (Row.isMark_of_bool? hread hint) hread flag).mp h, hint⟩
  · rintro ⟨hflag, hint⟩
    exact (AuditFilter.meaning_mark (Row.isMark_of_bool? hread hint) hread flag).mpr hflag

theorem equalBool_exact (b : Builder) (params : Parameters)
    (hread : Row.bool? row column = .ok d) :
    (∀ flag, (b.equalBool column (some flag)).Accepts params row ↔
        b.Accepts params row ∧ flag = d.getD false ∧
          ∀ n, Row.value row column = .int n → n = 0 ∨ n = 1) ∧
      (b.Accepts params row →
        ((∃! flag, (b.equalBool column (some flag)).Accepts params row) ↔
          ∀ n, Row.value row column = .int n → n = 0 ∨ n = 1)) := by
  have hflag : ∀ flag, (b.equalBool column (some flag)).Accepts params row ↔
      b.Accepts params row ∧ flag = d.getD false ∧
        ∀ n, Row.value row column = .int n → n = 0 ∨ n = 1 := by
    intro flag
    simp only [accepts_equalBool, Option.some.injEq, forall_eq', meaning_boolPredicate_iff hread]
  refine ⟨hflag, fun hb => ?_⟩
  constructor
  · rintro ⟨flag, haccepts, -⟩
    exact ((hflag flag).mp haccepts).2.2
  · intro hint
    refine ⟨d.getD false, (hflag _).mpr ⟨hb, rfl, hint⟩, fun other haccepts => ?_⟩
    exact ((hflag other).mp haccepts).2.1

def member : Row := .ofList [("name", .text "Ada"), ("active", .int 1)]

theorem equalBool_exact_of_member :
    let b : Builder := ⟨.english, {}, .empty⟩
    Row.bool? member "active" = .ok (some true) ∧ Row.bool? member "hidden" = .ok none ∧
      (b.equalBool "active" (some true)).Accepts .empty member ∧
      (∃! flag, (b.equalBool "active" (some flag)).Accepts .empty member) ∧
      ∃! flag, (b.equalBool "hidden" (some flag)).Accepts .empty member := by
  intro b
  have hactive : Row.bool? member "active" = .ok (some true) := by decide +kernel
  have hhidden : Row.bool? member "hidden" = .ok none := by decide +kernel
  have hone : ∀ n, Row.value member "active" = .int n → n = 0 ∨ n = 1 := by
    intro n hn
    exact .inr (Value.int.inj (hn.symm.trans (by decide +kernel)))
  have hnone : ∀ n, Row.value member "hidden" = .int n → n = 0 ∨ n = 1 := by
    intro n hn
    exact absurd (hn.symm.trans (by decide +kernel : _ = Value.null)) nofun
  have hb : b.Accepts .empty member := nofun
  obtain ⟨haccepts, hunique⟩ := equalBool_exact b .empty hactive
  exact ⟨hactive, hhidden, (haccepts true).mpr ⟨hb, rfl, hone⟩, (hunique hb).mpr hone,
    ((equalBool_exact b .empty hhidden).2 hb).mpr hnone⟩

theorem not_found_two :
    let b : Builder := ⟨.english, {}, .empty⟩
    let row : Row := .ofList [("active", .int 2)]
    Row.bool? row "active" = .ok (some true) ∧
      ∀ flag, ¬(b.equalBool "active" (some flag)).Accepts .empty row := by
  intro b row
  refine ⟨by decide +kernel, fun flag h => ?_⟩
  obtain ⟨-, hmeaning⟩ := accepts_equalBool.mp h
  rcases mark_of_meaning (hmeaning flag rfl) (n := 2) (by decide +kernel) with htwo | htwo
  · exact absurd htwo (by decide)
  · exact absurd htwo (by decide)

end Builder

end RecordQuery
