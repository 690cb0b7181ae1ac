import Mathlib.Data.List.Nodup
import Mathlib.Data.List.Perm.Basic
import RecordQuery.Proofs.Agreement.Rows
import RecordQuery.Proofs.Data.Sorting
import RecordQuery.Proofs.Query
import RecordQuery.Database.Search
import RecordQuery.Store.Memory

namespace RecordQuery

open RecordQuery.Database RecordQuery.Sql

variable {l : Layout} {kind : String → Row.Kind} {params : Parameters}

structure Twin (l : Layout) (kind : String → Row.Kind) where
  row : Row
  entry : Entry
  alike : Alike l kind row entry

theorem exists_twins {rows : List Row} {entries : List Entry}
    (h : List.Forall₂ (Alike l kind) rows entries) :
    ∃ twins : List (Twin l kind), twins.map (·.row) = rows ∧ twins.map (·.entry) = entries := by
  induction h with
  | nil => exact ⟨[], rfl, rfl⟩
  | cons halike _ ih =>
      obtain ⟨twins, hrows, hentries⟩ := ih
      exact ⟨⟨_, _, halike⟩ :: twins, congrArg (_ :: ·) hrows, congrArg (_ :: ·) hentries⟩

structure Ranked (l : Layout) (kind : String → Row.Kind) (orders : List Order) : Prop where
  sortable : ∀ o ∈ orders, Sortable l kind o.expr
  byId : ∃ o ∈ orders.getLast?, o.expr = .field Row.idColumn

namespace Twin

variable {orders : List Order}

def compare (orders : List Order) (a b : Twin l kind) : Ordering :=
  compareRows orders a.row b.row

theorem transCmp_sortCompare {expr : Expr} (hexpr : Sortable l kind expr) :
    Std.TransCmp fun a b : Twin l kind => (expr.value a.row).sortCompare (expr.value b.row) := by
  obtain ⟨κ, _, _, key, hkey⟩ := Value.exists_sortKey (kind expr.column)
  have hcmp : (fun a b : Twin l kind => (expr.value a.row).sortCompare (expr.value b.row)) =
      compareOn fun a => key (expr.value a.row) := by
    funext a b
    exact hkey _ _ (a.alike.fits_value hexpr) (b.alike.fits_value hexpr)
  rw [hcmp]
  infer_instance

theorem transCmp_compare (h : Ranked l kind orders) :
    Std.TransCmp (compare orders : Twin l kind → Twin l kind → Ordering) :=
  Order.transCmp_compareBy fun o ho => transCmp_sortCompare (h.sortable o ho)

theorem compareEntries_eq (h : Ranked l kind orders) (a b : Twin l kind) :
    compareEntries l orders a.entry b.entry = compare orders a b := by
  have hsortable := h.sortable
  unfold compare compareRows compareEntries
  clear h
  induction orders with
  | nil => rfl
  | cons o rest ih =>
      rw [Order.compareBy, Order.compareBy,
        a.alike.sortCompare_eq b.alike (hsortable o (List.mem_cons_self ..)),
        ih fun p hp => hsortable p (List.mem_cons_of_mem _ hp)]

theorem number_of_compare (h : Ranked l kind orders) {a b : Twin l kind}
    (hab : compare orders a b = .eq) : a.entry.number = b.entry.number := by
  obtain ⟨o, ho, hid⟩ := h.byId
  have heq := Order.compareBy_eq_eq (List.mem_of_mem_getLast? ho) hab
  rw [hid] at heq
  change (Row.value a.row Row.idColumn).sortCompare (Row.value b.row Row.idColumn) = .eq at heq
  rw [a.alike.number, b.alike.number] at heq
  have hnumbers : Ord.compare a.entry.number b.entry.number = .eq := heq
  exact Keyed.compare_eq_iff.mp hnumbers

end Twin

structure Query.Suits (l : Layout) (kind : String → Row.Kind) (q : Query) : Prop where
  predicates : ∀ p ∈ q.predicates, p.Suits l kind q.bindings
  orders : Ranked l kind q.orders

namespace Twin

variable {q : Query} {twins : List (Twin l kind)}

def accepts (q : Query) (a : Twin l kind) : Bool :=
  Predicate.meaningAll q.bindings a.row q.predicates == .yes

def selected (q : Query) (twins : List (Twin l kind)) : List (Twin l kind) :=
  sortBy (fun a b => compare q.orders a b == .lt) (twins.filter (accepts q))

theorem exists_conditions (ht : Typed l kind) (hq : q.Suits l kind) :
    ∃ conditions, Condition.ofPredicates q.bindings q.predicates = .ok conditions ∧
      ∀ a : Twin l kind, satisfies l a.entry conditions = accepts q a := by
  have hsuits := (Predicate.suitsAll_iff l kind q.bindings).mpr hq.predicates
  obtain ⟨conditions, hconditions⟩ :=
    Condition.exists_ofPredicates q.predicates (Predicate.closedAll_of_suits q.predicates hsuits)
  refine ⟨conditions, hconditions, ?_⟩
  intro a
  obtain ⟨conditions', hconditions', hall, -⟩ :=
    Predicate.truths_eq_meanings a.alike ht q.predicates hsuits
  obtain rfl := Except.ok.inj (hconditions.symm.trans hconditions')
  rw [satisfies, hall]
  rfl

theorem selected_perm (q : Query) (twins : List (Twin l kind)) :
    (selected q twins).Perm (twins.filter (accepts q)) :=
  sortBy_perm _ _

section

variable (hnumbers : (twins.map (·.entry.number)).Nodup)

include hnumbers

theorem numbers_selected_nodup (q : Query) :
    ((selected q twins).map (·.entry.number)).Nodup :=
  ((selected_perm q twins).map _).nodup_iff.mpr (hnumbers.sublist (List.filter_sublist.map _))

theorem sortEntries_eq (hq : q.Suits l kind) {entries : List Entry}
    (hentries : entries.Perm ((twins.filter (accepts q)).map (·.entry))) :
    sortEntries l q.orders id entries = (selected q twins).map (·.entry) := by
  have := transCmp_compare hq.orders
  obtain ⟨others, rfl, hothers⟩ : ∃ others : List (Twin l kind),
      entries = others.map (·.entry) ∧ others.Perm (twins.filter (accepts q)) := by
    have himage := List.eq_map_comp_perm fun a : Twin l kind => a.entry
    exact (congrFun (congrFun himage _) _).mpr hentries
  have hcmp : (fun a b : Twin l kind => compareEntries l q.orders a.entry b.entry == .lt) =
      fun a b => compare q.orders a b == .lt := by
    funext a b
    rw [compareEntries_eq hq.orders]
  have hmem : ∀ a ∈ others, a ∈ twins := by
    intro a ha
    exact (List.mem_filter.mp (hothers.mem_iff.mp ha)).1
  rw [sortEntries, sortBy_map]
  simp only [id_eq]
  rw [hcmp, selected]
  refine congrArg (List.map _) (sortBy_eq_of_perm hothers ?_)
  intro a ha b hb hab
  exact List.inj_on_of_nodup_map hnumbers (hmem a ha) (hmem b hb)
    (number_of_compare hq.orders hab)

end

end Twin

end RecordQuery
