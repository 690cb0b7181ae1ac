import RecordQuery.Proofs.Query
import RecordQuery.Store.Memory

namespace RecordQuery.Memory

theorem accepted_eq {m : Matcher} {p : Row → Bool} {rows : List Row}
    (h : ∀ row ∈ rows, m.accepts row = .ok (p row)) : accepted m rows = .ok (rows.filter p) := by
  induction rows with
  | nil => rfl
  | cons row rest ih =>
      obtain ⟨hrow, hrest⟩ := List.forall_mem_cons.mp h
      rw [accepted, hrow, ih hrest, List.filter_cons]

theorem distinctIf_of_nodup {α : Type} [BEq α] [LawfulBEq α] {items : List α} (h : items.Nodup)
    (distinct : Bool) : distinctIf distinct items = items := by
  cases distinct with
  | false => rfl
  | true => exact eraseDups_of_nodup h

theorem mem_of_distinctIf {α : Type} [BEq α] [LawfulBEq α] {distinct : Bool} {items : List α}
    {x : α}
    (h : x ∈ distinctIf distinct items) : x ∈ items := by
  cases distinct with
  | false => exact h
  | true => exact List.mem_eraseDups.mp h

end RecordQuery.Memory
