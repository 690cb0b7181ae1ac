import Mathlib.Data.List.Nodup
import RecordQuery.Proofs.Data.Sorting
import RecordQuery.Proofs.Predicate.Patterns
import RecordQuery.Proofs.Store.Run
import RecordQuery.Proofs.Store.Selection
import RecordQuery.Proofs.Value

namespace RecordQuery

def Direction.Puts : Direction → Value → Value → Prop
  | asc, u, v => u.Below v
  | desc, u, v => v.Below u

def Precedes : List Order → Int64 × Row → Int64 × Row → Prop
  | [], a, b => a.1 < b.1
  | o :: rest, a, b =>
      o.direction.Puts (o.expr.value a.2) (o.expr.value b.2) ∨
        ¬(o.expr.value a.2).Below (o.expr.value b.2) ∧
          ¬(o.expr.value b.2).Below (o.expr.value a.2) ∧ Precedes rest a b

namespace Query

variable (q : Query)

def Matches (row : Row) : Prop := ∀ p ∈ q.predicates, p.evaluate q.bindings row = .ok .yes

structure Evaluates (rows : List Row) : Prop where
  readable : ∃ m, Matcher.of q.predicates q.bindings = .ok m
  defined : ∀ row ∈ rows, ∀ p ∈ q.predicates, ∃ t, p.evaluate q.bindings row = .ok t

def Sortable (rows : List Row) : Prop :=
  ∀ o ∈ q.orders, ∃ f : Family, ∀ row ∈ rows, q.Matches row → f.holds (o.expr.value row) = true

end Query

theorem Direction.orient_sortCompare (d : Direction) {f : Family} {u v : Value}
    (hu : f.holds u = true) (hv : f.holds v = true) :
    (d.orient (u.sortCompare v) = .lt ↔ d.Puts u v) ∧
      (d.orient (u.sortCompare v) = .eq → ¬u.Below v ∧ ¬v.Below u) := by
  obtain ⟨hsort, hlt⟩ := f.sortCompare_eq hu hv
  have hgt : f.compare u v = .gt ↔ v.Below u :=
    Std.OrientedCmp.gt_iff_lt.trans (f.sortCompare_eq hv hu).2
  have htie : f.compare u v = .eq → ¬u.Below v ∧ ¬v.Below u := by
    intro heq
    rw [← hlt, ← hgt, heq]
    simp
  rw [hsort]
  cases d with
  | asc => exact ⟨hlt, htie⟩
  | desc => exact ⟨Ordering.swap_eq_lt.trans hgt, fun heq => htie (Ordering.swap_eq_eq.mp heq)⟩

theorem precedes_of_stably {orders : List Order} {a b : Int64 × Row}
    (hfamily : ∀ o ∈ orders, ∃ f : Family, f.holds (o.expr.value a.2) = true ∧
      f.holds (o.expr.value b.2) = true)
    (h : Stably (fun a b => compareRows orders a.2 b.2) (fun a b => a.1 < b.1) a b) :
    Precedes orders a b := by
  induction orders with
  | nil =>
      rcases h with h | ⟨-, h⟩
      · cases h
      · exact h
  | cons o rest ih =>
      obtain ⟨⟨f, ha, hb⟩, hfamily⟩ := List.forall_mem_cons.mp hfamily
      obtain ⟨hputs, htie⟩ := o.direction.orient_sortCompare ha hb
      have hthen : ∀ x y : Row, compareRows (o :: rest) x y =
          (o.direction.orient ((o.expr.value x).sortCompare (o.expr.value y))).then
            (compareRows rest x y) := fun _ _ => rfl
      simp only [Stably, hthen, Ordering.then_eq_lt, Ordering.then_eq_eq] at h
      rcases h with (h | ⟨heq, h⟩) | ⟨⟨heq, h⟩, hnumber⟩
      · exact .inl (hputs.mp h)
      · exact .inr ⟨(htie heq).1, (htie heq).2, ih hfamily (.inl h)⟩
      · exact .inr ⟨(htie heq).1, (htie heq).2, ih hfamily (.inr ⟨h, hnumber⟩)⟩

theorem pairwise_precedes {orders : List Order} {l : List (Int64 × Row)}
    (hl : l.Pairwise fun a b => a.1 < b.1)
    (hfamily : ∀ o ∈ orders, ∃ f : Family, ∀ a ∈ l, f.holds (o.expr.value a.2) = true) :
    (sortBy (fun a b => compareRows orders a.2 b.2 == .lt) l).Pairwise (Precedes orders) := by
  -- only the rows of the list have an order, so it is the list of them as such that is sorted
  have htrans : Std.TransCmp fun a b : {a // a ∈ l} => compareRows orders a.1.2 b.1.2 := by
    refine @Order.transCmp_compareBy {a // a ∈ l}
      (fun e a b => (e.value a.1.2).sortCompare (e.value b.1.2)) orders ?_
    intro o ho
    obtain ⟨f, hf⟩ := hfamily o ho
    have hcompare : (fun a b : {a // a ∈ l} =>
        (o.expr.value a.1.2).sortCompare (o.expr.value b.1.2)) =
          fun a b => f.compare (o.expr.value a.1.2) (o.expr.value b.1.2) := by
      funext a b
      exact (f.sortCompare_eq (hf a.1 a.2) (hf b.1 b.2)).1
    rw [hcompare]
    exact f.transCmp_compare fun a : {a // a ∈ l} => o.expr.value a.1.2
  have hattach : l.attach.Pairwise fun a b => a.1.1 < b.1.1 := by
    rw [← List.attach_map_subtype_val l] at hl
    exact (List.pairwise_map (f := Subtype.val) (R := fun a b : Int64 × Row => a.1 < b.1)).mp hl
  rw [← List.attach_map_subtype_val l, sortBy_map, List.pairwise_map]
  refine (sortBy_stably hattach).imp ?_
  intro a b h
  refine precedes_of_stably ?_ h
  intro o ho
  obtain ⟨f, hf⟩ := hfamily o ho
  exact ⟨f, hf a.1 a.2, hf b.1 b.2⟩

def stretch {α : Type} (first most : Int64) (items : List α) : List α :=
  let rest := if 0 < first then items.drop first.toInt.toNat else items
  if 0 < most then rest.take most.toInt.toNat else rest

theorem page_eq_stretch {α : Type} (q : Query) (first most : Int64) (items : List α) :
    ((q.withFirst first).withLimit most).page items = stretch first most items := by
  by_cases hfirst : 0 < first <;> by_cases hmost : 0 < most <;>
    simp [Query.page, page, Query.withLimit, Query.withFirst, Query.pageBound, stretch, hfirst,
      hmost]

theorem stretch_ofNat {α : Type} {first most : Nat} (hfirst : first < 2 ^ 63)
    (hmost : most < 2 ^ 63) (hpos : 0 < most) (items : List α) :
    stretch (.ofNat first) (.ofNat most) items = (items.drop first).take most := by
  have htoNat : ∀ {n : Nat}, n < 2 ^ 63 → (Int64.ofNat n).toInt.toNat = n := by
    intro n hn
    rw [Int64.toInt_ofNat_of_lt hn, Int.toNat_natCast]
  have hlt : ∀ {n : Nat}, n < 2 ^ 63 → (0 < Int64.ofNat n ↔ 0 < n) := by
    intro n hn
    rw [Int64.lt_iff_toInt_lt, Int64.toInt_ofNat_of_lt hn]
    simp
  simp only [stretch, hlt hfirst, hlt hmost, htoNat hfirst, htoNat hmost, hpos, if_true]
  split
  · rfl
  · rename_i hzero
    rw [Nat.eq_zero_of_not_pos hzero, List.drop_zero]

theorem flatMap_stretches {α : Type} (size : Nat) (items : List α) (n : Nat) :
    (List.range n).flatMap (fun i => (items.drop (i * size)).take size) =
      items.take (n * size) := by
  induction n with
  | zero => simp
  | succ n ih =>
      rw [List.range_succ, List.flatMap_append, ih, Nat.succ_mul, List.take_add]
      simp

namespace Memory

variable {q : Query} {s : Memory}

structure Lists (s : Memory) (q : Query) (listed : List (Int64 × Row)) : Prop where
  mem_iff : ∀ id row, (id, row) ∈ listed ↔
    s.tables.row? q.entity id = some row ∧ q.Matches row
  numbered : ∀ id row, (id, row) ∈ listed → Row.int row Row.idColumn = .ok id
  nodup : (listed.map (·.1)).Nodup
  sorted : listed.Pairwise (Precedes q.orders)

theorem accepted_of_evaluates {rows : List Row} (h : q.Evaluates rows) :
    ∃ m p, Matcher.of q.predicates q.bindings = .ok m ∧ accepted m rows = .ok (rows.filter p) ∧
      ∀ row ∈ rows, p row = true ↔ q.Matches row := by
  obtain ⟨m, hm⟩ := h.readable
  obtain ⟨hpredicates, hparams, hfaithful⟩ := Matcher.faithful_of hm
  have haccepts : ∀ row ∈ rows, ∃ b, m.accepts row = .ok b ∧ (b = true ↔ q.Matches row) := by
    intro row hrow
    obtain ⟨b, hb, hiff⟩ := Matcher.acceptsAll_of_evaluate hfaithful (h.defined row hrow)
    refine ⟨b, ?_, hiff⟩
    rw [Matcher.accepts, hpredicates, hparams, hb]
  let p : Row → Bool := fun row => (m.accepts row).toOption.getD false
  refine ⟨m, p, hm, accepted_eq ?_, ?_⟩
  · intro row hrow
    obtain ⟨b, hb, -⟩ := haccepts row hrow
    simp only [p, hb]
    rfl
  · intro row hrow
    obtain ⟨b, hb, hiff⟩ := haccepts row hrow
    rw [← hiff]
    simp [p, hb, Except.toOption]

theorem exists_lists (hids : IdsRead s)
    (hevaluates : q.Evaluates (s.tables.region q.entity).values)
    (hsortable : q.Sortable (s.tables.region q.entity).values) :
    ∃ listed, Lists s q listed ∧ select q s = .ok (listed.map (·.2)) := by
  let table := s.tables.region q.entity
  obtain ⟨m, p, hm, haccepted, hp⟩ := accepted_of_evaluates hevaluates
  let matched := table.entries.filter fun x => p x.2
  let listed := sortBy (fun a b => compareRows q.orders a.2 b.2 == .lt) matched
  have hvalue : ∀ x ∈ table.entries, x.2 ∈ table.values := fun _ => List.mem_map_of_mem
  have hmatched : ∀ x ∈ matched, x ∈ table.entries ∧ q.Matches x.2 := by
    intro x hx
    obtain ⟨hx, hpx⟩ := List.mem_filter.mp hx
    exact ⟨hx, (hp _ (hvalue x hx)).mp hpx⟩
  have hascending : matched.Pairwise fun a b => a.1 < b.1 :=
    (table.ascending.filter _).imp Std.compare_eq_lt.mp
  have hlists : Lists s q listed := by
    refine ⟨?_, ?_, ?_, ?_⟩
    · intro id row
      rw [mem_sortBy, List.mem_filter, Keyed.mem_entries_iff]
      refine and_congr_right fun hrow => hp row ?_
      exact hvalue _ (Keyed.mem_entries_iff.mpr hrow)
    · intro id row hlisted
      exact hids q.entity id row
        (Keyed.mem_entries_iff.mp (hmatched _ (mem_sortBy.mp hlisted)).1)
    · refine ((sortBy_perm _ matched).map Prod.fst).nodup_iff.mpr ?_
      exact List.pairwise_map.mpr (hascending.imp fun hlt => Int64.ne_of_lt hlt)
    · refine pairwise_precedes hascending ?_
      intro o ho
      obtain ⟨f, hf⟩ := hsortable o ho
      exact ⟨f, fun x hx => hf _ (hvalue x (hmatched x hx).1) (hmatched x hx).2⟩
  refine ⟨listed, hlists, ?_⟩
  have hrows : (listed.map Prod.snd).Nodup := by
    refine List.Nodup.of_map (Row.int · Row.idColumn) ?_
    have hnumbers : (listed.map Prod.snd).map (Row.int · Row.idColumn) =
        (listed.map Prod.fst).map .ok := by
      rw [List.map_map, List.map_map]
      exact List.map_congr_left fun x hx => hlists.numbered x.1 x.2 hx
    rw [hnumbers]
    exact hlists.nodup.map fun _ _ h => Except.ok.inj h
  have hsorted : sorted q.orders (table.values.filter p) = listed.map Prod.snd := by
    rw [sorted, Keyed.values, List.filter_map, sortBy_map]
    rfl
  rw [select, hm]
  simp only
  rw [haccepted]
  simp only
  rw [hsorted, distinctIf_of_nodup hrows]

theorem rows_exact (calls : List Call) (q : Query)
    (hevaluates : q.Evaluates ((afterAll calls {}).tables.region q.entity).values)
    (hsortable : q.Sortable ((afterAll calls {}).tables.region q.entity).values) :
    let s := afterAll calls {}
    ∃ listed, Lists s q listed ∧
      rows { q with first := none, limit := none } s = .ok (listed.map (·.2)) ∧
      (∀ first most, rows ((q.withFirst first).withLimit most) s =
        .ok (stretch first most (listed.map (·.2)))) ∧
      ∀ size n : Nat, 0 < size → size < 2 ^ 63 → (∀ i < n, i * size < 2 ^ 63) →
        listed.length ≤ n * size → ∃ pages : Nat → List Row,
          (∀ i < n, rows ((q.withFirst (.ofNat (i * size))).withLimit (.ofNat size)) s =
            .ok (pages i)) ∧
          (List.range n).flatMap pages = listed.map (·.2) := by
  intro s
  obtain ⟨listed, hlists, hselect⟩ :=
    exists_lists (idsRead_afterAll calls idsRead_start) hevaluates hsortable
  have hrows : ∀ first most, rows ((q.withFirst first).withLimit most) s =
      .ok (stretch first most (listed.map (·.2))) := by
    intro first most
    rw [← page_eq_stretch]
    exact congrArg (Except.map _) hselect
  refine ⟨listed, hlists, congrArg (Except.map _) hselect, hrows, ?_⟩
  intro size n hpos hsize hstarts hlength
  refine ⟨fun i => ((listed.map (·.2)).drop (i * size)).take size, ?_, ?_⟩
  · intro i hi
    rw [hrows, stretch_ofNat (hstarts i hi) hsize hpos]
  · rw [flatMap_stretches, List.take_of_length_le]
    rwa [List.length_map]

def aged (age : Value) : Row := .ofList [("age", age)]

def fiveAged : List Call :=
  [.insert "person" (aged (.int 1)), .insert "person" (aged .null),
    .insert "person" (aged (.int 9)),
    .insert "person" (aged (.bool true)), .insert "person" (aged (.int 41))]

def youngestLast : Query :=
  { entity := "person", predicates := [.compare (.field Row.idColumn) .lt (.value (.int 5))],
    orders := [⟨.field "age", .desc⟩] }

theorem rows_exact_of_fiveAged :
    ∃ listed, Lists (afterAll fiveAged {}) youngestLast listed ∧
      listed.map (·.2) = [numbered 3 (aged (.int 9)), numbered 1 (aged (.int 1)),
        numbered 4 (aged (.bool true)), numbered 2 (aged .null)] ∧
      rows ((youngestLast.withFirst 0).withLimit 3) (afterAll fiveAged {}) =
        .ok ((listed.map (·.2)).take 3) ∧
      rows ((youngestLast.withFirst 3).withLimit 3) (afterAll fiveAged {}) =
        .ok ((listed.map (·.2)).drop 3) := by
  have hdefined : ∀ row ∈ ((afterAll fiveAged {}).tables.region "person").values,
      ∀ p ∈ youngestLast.predicates, (p.evaluate youngestLast.bindings row).isOk = true := by
    decide +kernel
  have hevaluates :
      youngestLast.Evaluates ((afterAll fiveAged {}).tables.region "person").values := by
    refine ⟨⟨_, rfl⟩, ?_⟩
    intro row hrow p hp
    have hok := hdefined row hrow p hp
    cases h : p.evaluate youngestLast.bindings row with
    | ok t => exact ⟨t, rfl⟩
    | error e =>
        rw [h] at hok
        cases hok
  have hsortable :
      youngestLast.Sortable ((afterAll fiveAged {}).tables.region "person").values := by
    have hnumbers : ∀ o ∈ youngestLast.orders,
        ∀ row ∈ ((afterAll fiveAged {}).tables.region "person").values,
          Family.numbers.holds (o.expr.value row) = true := by
      decide +kernel
    exact fun o ho => ⟨.numbers, fun row hrow _ => hnumbers o ho row hrow⟩
  obtain ⟨listed, hlists, hall, hpage, -⟩ := rows_exact fiveAged youngestLast hevaluates hsortable
  have hlisted : listed.map (·.2) = [numbered 3 (aged (.int 9)), numbered 1 (aged (.int 1)),
      numbered 4 (aged (.bool true)), numbered 2 (aged .null)] :=
    Except.ok.inj (hall.symm.trans (by decide +kernel))
  refine ⟨listed, hlists, hlisted, ?_, ?_⟩
  · rw [hpage, hlisted]
    rfl
  · rw [hpage, hlisted]
    rfl

end Memory

end RecordQuery
