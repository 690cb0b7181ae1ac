import Mathlib.Data.Finset.Card
import RecordQuery.Proofs.Predicate.Acceptance
import RecordQuery.Proofs.Predicate.Pieces

namespace RecordQuery

namespace Predicate

def patternKey? : Predicate → Option PatternKey
  | like _ pattern escape => some (pattern, escape)
  | _ => none

def patternKeys (items : List Predicate) : List PatternKey :=
  (leavesAll items).filterMap patternKey?

theorem patternKey?_eq_some {p : Predicate} {key : PatternKey} :
    p.patternKey? = some key ↔ ∃ expr, p = like expr key.1 key.2 := by
  constructor
  · intro h
    cases p with
    | like expr pattern escape =>
        obtain rfl := Option.some.inj h
        exact ⟨expr, rfl⟩
    | _ => cases h
  · rintro ⟨expr, rfl⟩
    rfl

theorem readable_iff_not_dangles {items : List Predicate} :
    Readable (leavesAll items) ↔
      ∀ key ∈ patternKeys items, ¬Like.Dangles key.2 key.1.toList := by
  simp only [Readable, patternKeys, List.mem_filterMap, patternKey?_eq_some,
    Option.isSome_iff_ne_none, ne_eq, Like.tokens?_eq_none_iff]
  constructor
  · rintro h key ⟨_, hmem, expr, rfl⟩
    exact h expr key.1 key.2 hmem
  · intro h expr pattern escape hmem
    exact h (pattern, escape) ⟨_, hmem, expr, rfl⟩

end Predicate

namespace PatternTable

open Predicate

mutual

theorem collect_eq_foldlM (table : PatternTable) : ∀ p : Predicate,
    collect table p = (p.leaves.filterMap patternKey?).foldlM add table
  | .literal _ => rfl
  | .compare .. => rfl
  | .compareFields .. => rfl
  | .among .. => rfl
  | .isNull _ => rfl
  | .isNotNull _ => rfl
  | .like _ pattern escape => (bind_pure (table.add (pattern, escape))).symm
  | .negate inner => collect_eq_foldlM table inner
  | .all items => collectAll_eq_foldlM table items
  | .any items => collectAll_eq_foldlM table items

theorem collectAll_eq_foldlM (table : PatternTable) : ∀ items : List Predicate,
    collectAll table items = (patternKeys items).foldlM add table
  | [] => rfl
  | p :: rest => by
      rw [collectAll, patternKeys, leavesAll, List.filterMap_append, List.foldlM_append,
        collect_eq_foldlM table p]
      cases (p.leaves.filterMap patternKey?).foldlM add table with
      | error e => rfl
      | ok first => exact collectAll_eq_foldlM first rest

end

variable {table : PatternTable} {seen keys : List PatternKey} {key : PatternKey}

structure Indexes (table : PatternTable) (seen : List PatternKey) : Prop where
  faithful : table.Faithful
  nodup : (table.map Prod.fst).Nodup
  mem_iff : ∀ key, key ∈ table.map Prod.fst ↔ key ∈ seen

theorem indexes_nil : Indexes [] [] := ⟨faithful_nil, List.nodup_nil, fun _ => Iff.rfl⟩

theorem lookup_eq_none_iff : table.lookup key = none ↔ key ∉ table.map Prod.fst := by
  rw [List.lookup_eq_none_iff, List.mem_map]
  constructor
  · rintro h ⟨entry, hentry, rfl⟩
    simpa using h entry hentry
  · intro h entry hentry
    exact bne_iff_ne.mpr fun heq => h ⟨entry, hentry, heq.symm⟩

theorem Indexes.again (h : table.Indexes seen) (hkey : key ∈ seen) :
    table.Indexes (seen ++ [key]) := by
  refine ⟨h.faithful, h.nodup, fun k => ?_⟩
  rw [h.mem_iff, List.mem_append, List.mem_singleton]
  exact ⟨.inl, fun hk => hk.elim id fun heq => heq ▸ hkey⟩

theorem Indexes.entered (h : table.Indexes seen) {ts : List LikeToken} (hkey : key ∉ seen)
    (hfaithful : Faithful (table ++ [(key, ts)])) :
    Indexes (table ++ [(key, ts)]) (seen ++ [key]) := by
  refine ⟨hfaithful, ?_, fun k => ?_⟩
  · rw [List.map_append, List.nodup_append]
    refine ⟨h.nodup, List.nodup_singleton _, ?_⟩
    intro k hk j hj heq
    obtain rfl : j = key := List.mem_singleton.mp hj
    exact hkey (heq ▸ (h.mem_iff k).mp hk)
  · rw [List.map_append, List.mem_append, List.mem_append, h.mem_iff]
    rfl

theorem Indexes.add (h : table.Indexes seen) (hkey : ¬Like.Dangles key.2 key.1.toList) :
    ∃ after, table.add key = .ok after ∧ after.Indexes (seen ++ [key]) := by
  obtain ⟨ts, hts⟩ := Option.ne_none_iff_exists'.mp (mt Like.tokens?_eq_none_iff.mp hkey)
  obtain ⟨after, hafter, hfaithful⟩ := add_faithful h.faithful hts
  refine ⟨after, hafter, ?_⟩
  cases hlookup : table.lookup key with
  | some us =>
      obtain rfl : table = after := by
        simpa only [PatternTable.add, hlookup, Except.ok.injEq] using hafter
      refine h.again ((h.mem_iff key).mp (not_not.mp fun hnot => ?_))
      rw [lookup_eq_none_iff.mpr hnot] at hlookup
      cases hlookup
  | none =>
      obtain rfl : table ++ [(key, ts)] = after := by
        simpa only [PatternTable.add, hlookup, tokens?, hts, Except.ok.injEq] using hafter
      exact h.entered (mt (h.mem_iff key).mpr (lookup_eq_none_iff.mp hlookup)) hfaithful

theorem Indexes.foldlM (h : table.Indexes seen)
    (hkeys : ∀ key ∈ keys, ¬Like.Dangles key.2 key.1.toList) :
    ∃ after, keys.foldlM PatternTable.add table = .ok after ∧ after.Indexes (seen ++ keys) := by
  induction keys generalizing table seen with
  | nil => exact ⟨table, rfl, (List.append_nil seen).symm ▸ h⟩
  | cons key rest ih =>
      obtain ⟨hkey, hrest⟩ := List.forall_mem_cons.mp hkeys
      obtain ⟨next, hnext, hin⟩ := h.add hkey
      obtain ⟨after, hafter, hall⟩ := ih hin hrest
      refine ⟨after, ?_, ?_⟩
      · rw [List.foldlM_cons, hnext]
        exact hafter
      · rwa [List.append_assoc] at hall

theorem Indexes.length_eq (h : table.Indexes seen) : table.length = seen.toFinset.card := by
  have hsame : (table.map Prod.fst).toFinset = seen.toFinset := by
    ext key
    rw [List.mem_toFinset, List.mem_toFinset, h.mem_iff]
  rw [← hsame, List.toFinset_card_of_nodup h.nodup, List.length_map]

theorem add_of_dangles (h : table.Faithful) (hkey : Like.Dangles key.2 key.1.toList) :
    table.add key = .error (.danglingEscape key.1) := by
  have hnone := Like.tokens?_eq_none_iff.mpr hkey
  cases hlookup : table.lookup key with
  | some ts =>
      rw [h key ts hlookup] at hnone
      cases hnone
  | none => simp only [add, hlookup, tokens?, hnone]

theorem collectAll_of_dangles {items : List Predicate} {front back : List PatternKey}
    (hkeys : patternKeys items = front ++ key :: back)
    (hfront : ∀ k ∈ front, ¬Like.Dangles k.2 k.1.toList)
    (hkey : Like.Dangles key.2 key.1.toList) :
    collectAll [] items = .error (.danglingEscape key.1) := by
  obtain ⟨table, htable, hin⟩ := indexes_nil.foldlM hfront
  rw [collectAll_eq_foldlM, hkeys, List.foldlM_append, htable]
  change (key :: back).foldlM add table = _
  rw [List.foldlM_cons, add_of_dangles hin.faithful hkey]
  rfl

end PatternTable

namespace Matcher

open Predicate

variable {params : Parameters} {row : Row} {items : List Predicate}

def acceptsInTurn (params : Parameters) (row : Row) : List Predicate → Except QueryFault Bool
  | [] => .ok true
  | p :: rest =>
      match p.evaluate params row with
      | .ok .yes => acceptsInTurn params row rest
      | .ok _ => .ok false
      | .error e => .error e

theorem acceptsAll_eq_acceptsInTurn {patterns : PatternTable} (h : patterns.Faithful)
    (hread : Readable (leavesAll items)) :
    acceptsAll patterns params row items = acceptsInTurn params row items := by
  induction items with
  | nil => rfl
  | cons p rest ih =>
      obtain ⟨hp, hrest⟩ := readable_append.mp hread
      have hsame : p.evaluateWith patterns params row = p.evaluate params row :=
        (evaluateWith_eq_stopped row h p hp).trans (evaluate_eq_stopped hp).symm
      rw [acceptsAll, acceptsInTurn, hsame]
      cases p.evaluate params row with
      | error e => rfl
      | ok t =>
          cases t with
          | yes => exact ih hrest
          | no => rfl
          | unknown => rfl

theorem evaluate_allOf_eq_yes :
    (allOf items).evaluate params row = .ok .yes ↔
      ∀ p ∈ items, p.evaluate params row = .ok .yes := by
  match items with
  | [] => simp [allOf, evaluate_eq_ok, Readable, leaves, stop, meaning]
  | [p] => simp [allOf]
  | p :: q :: rest =>
      have hleaves : Readable (all (p :: q :: rest)).leaves ↔
          ∀ i ∈ p :: q :: rest, Readable i.leaves := by
        rw [leaves, leavesAll_eq_flatMap, readable_flatMap]
      have hall : allOf (p :: q :: rest) = all (p :: q :: rest) := rfl
      rw [hall, evaluate_eq_ok, hleaves, stop, meaning, all_yes_iff rfl, ← forall₂_and]
      simp only [evaluate_eq_ok]

theorem of_eq_ok {patterns : PatternTable} (h : PatternTable.collectAll [] items = .ok patterns) :
    Matcher.of items params = .ok ⟨items, params, patterns⟩ := by
  rw [Matcher.of, h]

theorem accepts_eq_evaluate_allOf {patterns : PatternTable} (h : patterns.Faithful) (row : Row)
    (hbound : ∀ name ∈ parameterNamesAll items, params.contains name = true)
    (hread : Readable (leavesAll items)) :
    ∃ t, (allOf items).evaluate params row = .ok t ∧
      acceptsAll patterns params row items = .ok (t == .yes) := by
  have hclosed := closedAll_of_bound items hbound hread
  have hmeaning : (allOf items).meaning params row = meaningAll params row items := by
    rw [meaning_allOf, meaningAll_eq_conj]
  refine ⟨_, evaluate_eq row (closed_allOf ((closedAll_iff params).mp hclosed)), ?_⟩
  rw [acceptsAll_eq h row hclosed, hmeaning]

theorem matching_exact (items : List Predicate) (params : Parameters) :
    (∃ front key back, patternKeys items = front ++ key :: back ∧
        (∀ k ∈ front, ¬Like.Dangles k.2 k.1.toList) ∧ Like.Dangles key.2 key.1.toList ∧
        Matcher.of items params = .error (.danglingEscape key.1)) ∨
      (∀ key ∈ patternKeys items, ¬Like.Dangles key.2 key.1.toList) ∧
        ∃ m, Matcher.of items params = .ok m ∧
          m.patterns.length = (patternKeys items).toFinset.card ∧
          ∀ row, m.accepts row = acceptsInTurn params row items ∧
            (m.accepts row = .ok true ↔ (allOf items).evaluate params row = .ok .yes) ∧
            ((∀ name ∈ parameterNamesAll items, params.contains name = true) →
              ∃ t, (allOf items).evaluate params row = .ok t ∧
                m.accepts row = .ok (t == .yes)) := by
  cases hfind : (patternKeys items).find? fun key => (Like.tokens? key.2 key.1.toList).isNone with
  | some key =>
      obtain ⟨hkey, front, back, hkeys, hfront⟩ := List.find?_eq_some_iff_append.mp hfind
      have hdangles := Like.tokens?_eq_none_iff.mp (Option.isNone_iff_eq_none.mp hkey)
      have hbefore : ∀ k ∈ front, ¬Like.Dangles k.2 k.1.toList := by
        intro k hk
        rw [← Like.tokens?_eq_none_iff, ← ne_eq, ← Option.isSome_iff_ne_none]
        simpa using hfront k hk
      refine .inl ⟨front, key, back, hkeys, hbefore, hdangles, ?_⟩
      rw [Matcher.of, PatternTable.collectAll_of_dangles hkeys hbefore hdangles]
  | none =>
      have hkeys : ∀ key ∈ patternKeys items, ¬Like.Dangles key.2 key.1.toList := by
        intro key hkey
        rw [← Like.tokens?_eq_none_iff, ← Option.isNone_iff_eq_none]
        exact List.find?_eq_none.mp hfind key hkey
      obtain ⟨patterns, hpatterns, hin⟩ := PatternTable.indexes_nil.foldlM hkeys
      rw [← PatternTable.collectAll_eq_foldlM] at hpatterns
      have hread := readable_iff_not_dangles.mpr hkeys
      have hof : Matcher.of items params = .ok ⟨items, params, patterns⟩ := of_eq_ok hpatterns
      refine .inr ⟨hkeys, _, hof, hin.length_eq, fun row => ⟨?_, ?_, ?_⟩⟩
      · exact acceptsAll_eq_acceptsInTurn hin.faithful hread
      · have honce : acceptsOnce items params row = acceptsAll patterns params row items := by
          rw [acceptsOnce, hof]
          rfl
        rw [evaluate_allOf_eq_yes, ← acceptsOnce_eq_true, honce]
        rfl
      · exact fun hbound => accepts_eq_evaluate_allOf hin.faithful row hbound hread

section

def grownUp : Parameters := .ofList [("least", .int 18)]

def repeated : List Predicate :=
  [.like (.lower (.field "name")) "a%" none,
    .any [.negate (.like (.field "name") "a%" none), .like (.field "name") "%!%z" (some '!'),
      .like (.field "name") "a%" (some '!')],
    .compare (.field "age") .ge (.param "least")]

def anna : Row := .ofList [("age", .int 20), ("name", .text "Anna")]

theorem matching_exact_repeated :
    (∀ name ∈ parameterNamesAll repeated, grownUp.contains name = true) ∧
      ∃ m, Matcher.of repeated grownUp = .ok m ∧ m.patterns.length = 3 ∧
        m.accepts anna = .ok true := by
  have hbound : ∀ name ∈ parameterNamesAll repeated, grownUp.contains name = true := by
    decide +kernel
  have hread : ∀ key ∈ patternKeys repeated, (Like.tokens? key.2 key.1.toList).isSome = true := by
    decide +kernel
  have hyes : (allOf repeated).evaluate grownUp anna = .ok .yes := by decide +kernel
  rcases matching_exact repeated grownUp with
    ⟨front, key, back, hkeys, -, hdangles, -⟩ | ⟨-, m, hm, hcount, hrows⟩
  · have hsome := hread key (by simp [hkeys])
    rw [Like.tokens?_eq_none_iff.mpr hdangles] at hsome
    cases hsome
  · obtain ⟨t, ht, haccepts⟩ := (hrows anna).2.2 hbound
    obtain rfl := Except.ok.inj (ht.symm.trans hyes)
    exact ⟨hbound, m, hm, hcount.trans (by decide +kernel), haccepts⟩

end

end Matcher

end RecordQuery
