import RecordQuery.Proofs.Data.Sorting
import RecordQuery.Proofs.Query
import RecordQuery.Proofs.Value
import RecordQuery.Store.Memory

namespace RecordQuery

open RecordQuery.Time

structure LawfulOn {α : Type} (cmp : α → α → Ordering) (l : List α) : Prop where
  refl : ∀ a ∈ l, cmp a a = .eq
  swap : ∀ a ∈ l, ∀ b ∈ l, cmp b a = (cmp a b).swap
  trans : ∀ a ∈ l, ∀ b ∈ l, ∀ c ∈ l, (cmp a b).isLE = true → (cmp b c).isLE = true →
    (cmp a c).isLE = true

namespace LawfulOn

variable {α : Type} {cmp : α → α → Ordering} {l : List α}

theorem transCmp (h : LawfulOn cmp l) : Std.TransCmp fun a b : {a // a ∈ l} => cmp a.1 b.1 where
  eq_swap {a b} := h.swap b.1 b.2 a.1 a.2
  isLE_trans {a b c} := h.trans a.1 a.2 b.1 b.2 c.1 c.2

theorem of_transCmp (h : Std.TransCmp fun a b : {a // a ∈ l} => cmp a.1 b.1) : LawfulOn cmp l where
  refl a ha := @Std.ReflCmp.compare_self _ (fun a b : {a // a ∈ l} => cmp a.1 b.1) _ ⟨a, ha⟩
  swap a ha b hb := h.eq_swap (a := ⟨b, hb⟩) (b := ⟨a, ha⟩)
  trans a ha b hb c hc := h.isLE_trans (a := ⟨a, ha⟩) (b := ⟨b, hb⟩) (c := ⟨c, hc⟩)

theorem sortBy_pairwise (h : LawfulOn cmp l) :
    (sortBy (fun a b => cmp a b == .lt) l).Pairwise fun a b => (cmp a b).isLE = true := by
  have htrans := h.transCmp
  rw [← List.attach_map_subtype_val l, sortBy_map, List.pairwise_map]
  exact @RecordQuery.sortBy_pairwise _ (fun a b : {a // a ∈ l} => cmp a.1 b.1) htrans l.attach

end LawfulOn

namespace Value

def level : Value → Nat
  | null => 0
  | bool _ => 1
  | int _ => 1
  | text _ => 2
  | time _ => 2

def byClock : Value → Value → Ordering :=
  compareLex (compareOn level) (compareLex (compareOn asInt) (compareOn asTime))

instance : Std.TransCmp byClock :=
  inferInstanceAs (Std.TransCmp
    (compareLex (compareOn level) (compareLex (compareOn asInt) (compareOn asTime))))

theorem byClock_text_time (s : String) (t : Instant) :
    (text s).sortCompare (time t) = byClock (text s) (time t) := by
  change ((Instant.read? s).bind fun a => some (compare a t)).getD .lt =
    compare (Instant.read? s) (some t)
  cases Instant.read? s with
  | none => rfl
  | some a => rfl

theorem byClock_time_text (s : String) (t : Instant) :
    (time t).sortCompare (text s) = byClock (time t) (text s) := by
  change ((Instant.read? s).bind fun a => some (compare t a)).getD .gt =
    compare (some t) (Instant.read? s)
  cases Instant.read? s with
  | none => rfl
  | some a => rfl

theorem sortCompare_eq_byClock : ∀ u v : Value, u.asText = none ∨ v.asText = none →
    u.sortCompare v = byClock u v
  | null, null, _ | null, bool _, _ | null, int _, _ | null, text _, _ | null, time _, _ => rfl
  | bool _, null, _ | bool _, text _, _ | bool _, time _, _ => rfl
  | int _, null, _ | int _, text _, _ | int _, time _, _ => rfl
  | bool _, bool _, _ | bool _, int _, _ | int _, bool _, _ | int _, int _, _ =>
      Ordering.then_eq.symm
  | text _, null, _ | text _, bool _, _ | text _, int _, _ => rfl
  | text s, time t, _ => byClock_text_time s t
  | time _, null, _ | time _, bool _, _ | time _, int _, _ | time _, time _, _ => rfl
  | time t, text s, _ => byClock_time_text s t
  | text _, text _, .inl h | text _, text _, .inr h => nomatch h

theorem eq_text_of_asText {v : Value} {s : String} (h : v.asText = some s) : v = text s := by
  cases v with
  | text t => exact congrArg text (Option.some.inj h)
  | null => cases h
  | bool b => cases h
  | int n => cases h
  | time t => cases h

theorem texts_or_byClock (u v : Value) :
    (∃ s t, u = text s ∧ v = text t) ∨ (u.sortCompare v = byClock u v ∧
      v.sortCompare u = byClock v u) := by
  cases hu : u.asText with
  | none => exact .inr ⟨sortCompare_eq_byClock u v (.inl hu), sortCompare_eq_byClock v u (.inr hu)⟩
  | some s =>
      cases hv : v.asText with
      | none =>
          exact .inr ⟨sortCompare_eq_byClock u v (.inr hv), sortCompare_eq_byClock v u (.inl hv)⟩
      | some t => exact .inl ⟨s, t, eq_text_of_asText hu, eq_text_of_asText hv⟩

theorem sortCompare_swap (u v : Value) : v.sortCompare u = (u.sortCompare v).swap := by
  rcases texts_or_byClock u v with ⟨s, t, rfl, rfl⟩ | ⟨huv, hvu⟩
  · exact Std.OrientedOrd.eq_swap (a := t) (b := s)
  · rw [huv, hvu]
    exact Std.OrientedCmp.eq_swap

theorem sortCompare_self (v : Value) : v.sortCompare v = .eq := by
  rcases texts_or_byClock v v with ⟨s, t, rfl, -⟩ | ⟨h, -⟩
  · exact Std.ReflOrd.compare_self (a := s)
  · rw [h]
    exact Std.ReflCmp.compare_self

theorem sortCompare_text (s t : String) : (text s).sortCompare (text t) = compare s t := rfl

theorem isLE_text_iff {s t : String} : ((text s).sortCompare (text t)).isLE = true ↔ ¬t < s := by
  rw [sortCompare_text, ← Ordering.ne_gt_iff_isLE]
  exact not_congr (Std.OrientedCmp.gt_iff_lt.trans compareOfLessAndEq_eq_lt)

theorem text_isLE_time (s : String) (t : Instant) :
    ((text s).sortCompare (time t)).isLE =
      (Instant.read? s).all fun a => (compare a t).isLE := by
  change (((Instant.read? s).bind fun a => some (compare a t)).getD .lt).isLE = _
  cases Instant.read? s with
  | none => rfl
  | some a => rfl

theorem time_isLE_text (s : String) (t : Instant) :
    ((time t).sortCompare (text s)).isLE =
      (Instant.read? s).any fun a => (compare t a).isLE := by
  change (((Instant.read? s).bind fun a => some (compare t a)).getD .gt).isLE = _
  cases Instant.read? s with
  | none => rfl
  | some a => rfl

/-- A time has two texts the other way round than their characters: the lesser text is read as that
time or a later one, and the greater text as that time, as an earlier one, or as none. -/
def Turns : Value → Value → Value → Prop
  | time now, text s, text t =>
      s < t ∧ (Instant.read? s).any (fun a => (compare now a).isLE) = true ∧
        (Instant.read? t).all (fun a => (compare a now).isLE) = true
  | _, _, _ => False

def Tangled (values : List Value) : Prop :=
  ∃ u ∈ values, ∃ v ∈ values, ∃ w ∈ values, u.Turns v w

instance : ∀ u v w : Value, Decidable (u.Turns v w)
  | time now, text s, text t => inferInstanceAs (Decidable (s < t ∧
      (Instant.read? s).any (fun a => (compare now a).isLE) = true ∧
        (Instant.read? t).all (fun a => (compare a now).isLE) = true))
  | null, _, _ | bool _, _, _ | int _, _, _ | text _, _, _ => isFalse id
  | time _, null, _ | time _, bool _, _ | time _, int _, _ | time _, time _, _ => isFalse id
  | time _, text _, null | time _, text _, bool _ | time _, text _, int _
  | time _, text _, time _ => isFalse id

instance (values : List Value) : Decidable (Tangled values) :=
  inferInstanceAs (Decidable (∃ u ∈ values, ∃ v ∈ values, ∃ w ∈ values, u.Turns v w))

section

variable {values : List Value} {u v w : Value} {s t : String}

theorem not_lt_of_between (h : ¬Tangled values) (hs : text s ∈ values) (ht : text t ∈ values)
    (hw : w ∈ values) (htw : ((text t).sortCompare w).isLE = true)
    (hws : (w.sortCompare (text s)).isLE = true) : ¬s < t := by
  intro hst
  cases w with
  | null => cases htw
  | bool b => cases htw
  | int n => cases htw
  | text r =>
      have hts : ((text t).sortCompare (text s)).isLE = true :=
        Std.TransOrd.isLE_trans (a := t) (b := r) (c := s) htw hws
      exact isLE_text_iff.mp hts hst
  | time now =>
      rw [time_isLE_text] at hws
      rw [text_isLE_time] at htw
      exact h ⟨time now, hw, text s, hs, text t, ht, hst, hws, htw⟩

theorem isLE_of_not_isLE (h : ¬(u.sortCompare v).isLE = true) : (v.sortCompare u).isLE = true := by
  rw [sortCompare_swap u v]
  cases huv : u.sortCompare v with
  | lt => simp [huv] at h
  | eq => simp [huv] at h
  | gt => rfl

theorem sortCompare_isLE_trans (h : ¬Tangled values) (hu : u ∈ values) (hv : v ∈ values)
    (hw : w ∈ values) (huv : (u.sortCompare v).isLE = true) (hvw : (v.sortCompare w).isLE = true) :
    (u.sortCompare w).isLE = true := by
  rcases texts_or_byClock u w with ⟨s, t, rfl, rfl⟩ | ⟨huw, -⟩
  · exact isLE_text_iff.mpr (not_lt_of_between h hw hu hv huv hvw)
  by_contra hnot
  have hwu := isLE_of_not_isLE hnot
  rcases texts_or_byClock u v with ⟨s, t, rfl, rfl⟩ | ⟨huv', -⟩
  · have hst : s = t :=
      String.le_antisymm (isLE_text_iff.mp huv) (not_lt_of_between h hu hv hw hvw hwu)
    exact hnot (hst ▸ hvw)
  rcases texts_or_byClock v w with ⟨s, t, rfl, rfl⟩ | ⟨hvw', -⟩
  · have hst : s = t :=
      String.le_antisymm (isLE_text_iff.mp hvw) (not_lt_of_between h hv hw hu hwu huv)
    exact hnot (hst ▸ huv)
  rw [huv'] at huv
  rw [hvw'] at hvw
  exact hnot (huw ▸ Std.TransCmp.isLE_trans huv hvw)

end

theorem not_isLE_of_turns {u v w : Value} (h : u.Turns v w) :
    (w.sortCompare u).isLE = true ∧ (u.sortCompare v).isLE = true ∧
      ¬(w.sortCompare v).isLE = true := by
  match u, v, w, h with
  | time now, text s, text t, ⟨hst, hs, ht⟩ =>
      refine ⟨(text_isLE_time t now).trans ht, (time_isLE_text s now).trans hs, ?_⟩
      exact fun hts => isLE_text_iff.mp hts hst

theorem lawfulOn_sortCompare_iff (values : List Value) :
    LawfulOn sortCompare values ↔ ¬Tangled values := by
  constructor
  · rintro h ⟨u, hu, v, hv, w, hw, hturns⟩
    obtain ⟨hwu, huv, hwv⟩ := not_isLE_of_turns hturns
    exact hwv (h.trans w hw u hu v hv hwu huv)
  · intro h
    exact ⟨fun u _ => sortCompare_self u, fun u _ v _ => sortCompare_swap u v,
      fun u hu v hv w hw => sortCompare_isLE_trans h hu hv hw⟩

end Value

theorem Direction.orient_swap (d : Direction) (o : Ordering) :
    d.orient o.swap = (d.orient o).swap := by
  cases d <;> rfl

section

variable {orders : List Order}

theorem compareRows_cons (o : Order) (orders : List Order) (a b : Row) :
    compareRows (o :: orders) a b =
      (o.direction.orient ((o.expr.value a).sortCompare (o.expr.value b))).then
        (compareRows orders a b) := rfl

theorem compareRows_self (orders : List Order) (a : Row) : compareRows orders a a = .eq := by
  induction orders with
  | nil => rfl
  | cons o rest ih =>
      rw [compareRows_cons, Value.sortCompare_self, ih]
      cases o.direction <;> rfl

theorem compareRows_swap (orders : List Order) (a b : Row) :
    compareRows orders b a = (compareRows orders a b).swap := by
  induction orders with
  | nil => rfl
  | cons o rest ih =>
      rw [compareRows_cons, compareRows_cons, Value.sortCompare_swap (o.expr.value a),
        Direction.orient_swap, ih, Ordering.swap_then]

theorem lawfulOn_compareRows {rows : List Row}
    (h : ∀ o ∈ orders, ¬Value.Tangled (rows.map (o.expr.value ·))) :
    LawfulOn (compareRows orders) rows := by
  refine .of_transCmp (@Order.transCmp_compareBy {a // a ∈ rows}
    (fun e a b => (e.value a.1).sortCompare (e.value b.1)) orders ?_)
  intro o ho
  have hvalues := (Value.lawfulOn_sortCompare_iff _).mpr (h o ho)
  have hmem : ∀ a : {a // a ∈ rows}, o.expr.value a.1 ∈ rows.map (o.expr.value ·) :=
    fun a => List.mem_map_of_mem a.2
  exact {
    eq_swap := fun {a b} => hvalues.swap _ (hmem b) _ (hmem a)
    isLE_trans := fun {a b c} => hvalues.trans _ (hmem a) _ (hmem b) _ (hmem c) }

end

namespace Memory

theorem sorts_lawfully (values : List Value) (orders : List Order) (rows : List Row) :
    (∀ u v : Value, u.sortCompare u = .eq ∧ v.sortCompare u = (u.sortCompare v).swap) ∧
      (LawfulOn Value.sortCompare values ↔ ¬Value.Tangled values) ∧
      (∀ a b : Row, compareRows orders a a = .eq ∧
        compareRows orders b a = (compareRows orders a b).swap) ∧
      ((∀ o ∈ orders, ¬Value.Tangled (rows.map (o.expr.value ·))) →
        LawfulOn (compareRows orders) rows ∧ (sorted orders rows).Perm rows ∧
          (sorted orders rows).Pairwise fun a b => (compareRows orders a b).isLE = true) := by
  refine ⟨fun u v => ⟨Value.sortCompare_self u, Value.sortCompare_swap u v⟩,
    Value.lawfulOn_sortCompare_iff values,
    fun a b => ⟨compareRows_self orders a, compareRows_swap orders a b⟩, ?_⟩
  intro h
  have hlawful := lawfulOn_compareRows h
  exact ⟨hlawful, sortBy_perm _ rows, hlawful.sortBy_pairwise⟩

def dated (v : Value) : Row := .ofList [("at", v)]

def byDate : List Order := [⟨.lower (.field "at"), .desc⟩, ⟨.field "at", .asc⟩]

theorem sorts_lawfully_mixed :
    let rows := [dated .null, dated (.text "n/a"), dated (.time .epoch), dated (.bool true),
      dated (.int 7), dated (.text "1969-12-31 23:59:59")]
    (∀ o ∈ byDate, ¬Value.Tangled (rows.map (o.expr.value ·))) ∧
      LawfulOn (compareRows byDate) rows ∧
      sorted byDate rows = [dated (.time .epoch), dated (.text "n/a"),
        dated (.text "1969-12-31 23:59:59"), dated (.int 7), dated (.bool true), dated .null] := by
  intro rows
  have hvalues : ∀ o ∈ byDate, ¬Value.Tangled (rows.map (o.expr.value ·)) := by decide +kernel
  have hsorted := (sorts_lawfully (rows.map (Row.value · "at")) byDate rows).2.2.2 hvalues
  exact ⟨hvalues, hsorted.1, by decide +kernel⟩

theorem not_lawfulOn_of_later_text :
    let later := Value.text "1970-01-01 00:00:01"
    let note := Value.text "n/a"
    let rows := [dated (.time .epoch), dated later, dated note]
    later.sortCompare note = .lt ∧ note.sortCompare (.time .epoch) = .lt ∧
      later.sortCompare (.time .epoch) = .gt ∧
      ¬LawfulOn (compareRows [⟨.field "at", .asc⟩]) rows ∧
      ¬(sorted [⟨.field "at", .asc⟩] rows).Pairwise fun a b =>
        (compareRows [⟨.field "at", .asc⟩] a b).isLE = true := by
  intro later note rows
  refine ⟨by decide +kernel, by decide +kernel, by decide +kernel, ?_, by decide +kernel⟩
  intro h
  have hcircle := h.trans (dated later) (by simp [rows]) (dated note) (by simp [rows])
    (dated (.time .epoch)) (by simp [rows]) (by decide +kernel) (by decide +kernel)
  exact absurd hcircle (by decide +kernel)

end Memory

end RecordQuery
