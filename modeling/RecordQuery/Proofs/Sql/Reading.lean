import RecordQuery.Proofs.Sql.Printing

namespace RecordQuery

namespace Predicate

variable (params : Parameters)

mutual

def normal : Predicate → Predicate
  | compare e op (.param name) =>
      match params.get? name with
      | some v => compare e op (.value v)
      | none => compare e op (.param name)
  | among _ [] => literal false
  | negate inner => negate (normal inner)
  | all items => allOf (normals items)
  | any items => anyOf (normals items)
  | p => p

def normals : List Predicate → List Predicate
  | [] => []
  | p :: rest => normal p :: normals rest

end

end Predicate

namespace Sql

open RecordQuery.Text RecordQuery.Sql.Token RecordQuery.Sql.Grammar

theorem exists_of_map_eq_ok {ε α β : Type} {x : Except ε α} {f : α → β} {y : β}
    (h : x.map f = .ok y) : ∃ a, x = .ok a ∧ f a = y := by
  cases x with
  | error e => cases h
  | ok a => exact ⟨a, rfl, Except.ok.inj h⟩

namespace Condition

variable {params : Parameters}

theorem tree_allOf (cs : List Condition) : (allOf cs).tree = .allOf (trees cs) := by
  cases cs <;> rfl

theorem tree_anyOf (cs : List Condition) : (anyOf cs).tree = .anyOf (trees cs) := by
  cases cs <;> rfl

mutual

theorem tree_ofPredicate : ∀ {p : Predicate} {c : Condition},
    ofPredicate params p = .ok c → c.tree = p.normal params
  | .literal b, c, h => by
      cases h
      rfl
  | .compare e op (.value v), c, h => by
      cases h
      rfl
  | .compare e op (.param key), c, h => by
      obtain ⟨v, hv, rfl⟩ := exists_of_map_eq_ok h
      simp only [Operand.value?] at hv
      simp only [Predicate.normal]
      cases hget : params.get? key with
      | none =>
          rw [hget] at hv
          cases hv
      | some w =>
          rw [hget] at hv
          cases hv
          rfl
  | .compareFields left op right, c, h => by
      cases h
      rfl
  | .among e [], c, h => by
      cases h
      rfl
  | .among e (v :: rest), c, h => by
      cases h
      rfl
  | .isNull e, c, h => by
      cases h
      rfl
  | .isNotNull e, c, h => by
      cases h
      rfl
  | .like e pattern escape, c, h => by
      cases h
      rfl
  | .negate inner, c, h => by
      obtain ⟨d, hd, rfl⟩ := exists_of_map_eq_ok h
      exact congrArg Predicate.negate (tree_ofPredicate hd)
  | .all items, c, h => by
      obtain ⟨cs, hcs, rfl⟩ := exists_of_map_eq_ok h
      rw [tree_allOf, trees_ofPredicates hcs, Predicate.normal]
  | .any items, c, h => by
      obtain ⟨cs, hcs, rfl⟩ := exists_of_map_eq_ok h
      rw [tree_anyOf, trees_ofPredicates hcs, Predicate.normal]

theorem trees_ofPredicates : ∀ {ps : List Predicate} {cs : List Condition},
    ofPredicates params ps = .ok cs → trees cs = Predicate.normals params ps
  | [], cs, h => by
      cases h
      rfl
  | p :: rest, cs, h => by
      rw [ofPredicates] at h
      split at h
      · cases h
      · rename_i c hc
        obtain ⟨ds, hds, rfl⟩ := exists_of_map_eq_ok h
        rw [trees, tree_ofPredicate hc, trees_ofPredicates hds, Predicate.normals]

end

end Condition

namespace Select

variable (s : Select)

theorem renders_restriction (conditions : List Condition) :
    Renders Restriction (restriction embedded conditions)
      (.allOf (Condition.trees conditions)) := by
  have hword : Prints Anything " WHERE ".toList [] [word "WHERE"] :=
    prints_literal (by decide) (by simp)
  have hwhere : ∀ {st : Statement} {ps : List Predicate}, Renders (Phrase .disjunction) st ps →
      Renders Restriction (.text " WHERE " :: st) (.anyOf ps) := by
    rintro st ps ⟨ts, hts, hphrase⟩
    exact ⟨_, (shows_text hword).append hts fun _ _ => trivial, .present (.of hphrase)⟩
  match conditions with
  | [] => exact ⟨[], prints_nil, .absent⟩
  | [c] =>
      obtain ⟨ps, hps, hphrase⟩ := c.renders_whole
      have heq : Predicate.allOf (Condition.trees [c]) = .anyOf ps := hps.symm
      rw [heq]
      exact hwhere hphrase
  | c :: d :: rest =>
      exact hwhere (renders_conjunction (Condition.renders_factors (c :: d :: rest))
        (List.cons_ne_nil _ _))

theorem prints_direction (d : Direction) :
    Prints Apart (" " ++ d.symbol).toList [] [word d.symbol] := by
  cases d <;> exact prints_fixed (by decide) (by simp)

theorem renders_ordering (orders : List Order) :
    Renders Sorting (ordering embedded orders) orders := by
  have hword : Prints Anything " ORDER BY ".toList [] [word "ORDER", word "BY"] :=
    prints_literal (by decide) (by simp)
  have horder : ∀ o : Order,
      Renders Ordered [.text (expr embedded o.expr ++ " " ++ o.direction.symbol)] o := by
    intro o
    obtain ⟨ts, hts, hterm⟩ := prints_expr o.expr
    have hboth : Shows Apart [.text (expr embedded o.expr), .text (" " ++ o.direction.symbol)]
        (ts ++ [word o.direction.symbol]) :=
      (shows_text hts).append (shows_text (prints_direction o.direction)) (breaks_blank _ _)
    rw [String.append_assoc]
    exact ⟨_, shows_joined_text hboth, .by hterm o.direction⟩
  cases orders with
  | nil => exact ⟨[], prints_nil, .absent⟩
  | cons o rest =>
      obtain ⟨ts, hts, hterms⟩ := renders_commas horder (List.cons_ne_nil o rest)
      exact ⟨_, (shows_text hword).append hts fun _ _ => trivial, .present (.by hterms)⟩

theorem prints_limit (n : Nat) :
    Prints Apart (" " ++ ("LIMIT " ++ displayNat n)).toList [] [word "LIMIT", number n] := by
  have hword : Prints Anything (" " ++ "LIMIT ").toList [] [word "LIMIT"] :=
    prints_literal (by decide) (by simp)
  rw [← String.append_assoc, String.toList_append]
  exact hword.append (prints_number n) fun _ _ => trivial

theorem prints_offset {text : String} {ts : List Token} (h : Prints Apart text.toList [] ts)
    (n : Nat) : Prints Apart (text ++ (" OFFSET " ++ displayNat n)).toList []
      (ts ++ [word "OFFSET", number n]) := by
  have hword : Prints Anything " OFFSET ".toList [] [word "OFFSET"] :=
    prints_literal (by decide) (by simp)
  rw [String.toList_append, String.toList_append]
  have hoffset := hword.append (prints_number n) fun _ _ => trivial
  exact h.append hoffset fun rest _ => apart_cons (by decide) _

theorem renders_window : Renders Window (s.window embedded) (s.first, s.limit) := by
  have hwindow : embedded.window = limitOffset := rfl
  rw [window, hwindow]
  cases s.limit with
  | none =>
      cases s.first with
      | none => exact ⟨[], prints_nil, .absent⟩
      | some n =>
          have hwords : Prints Apart (" " ++ "LIMIT -1").toList []
              [word "LIMIT", mark '-', number 1] := prints_fixed (by decide) (by simp)
          have htext : " " ++ ("LIMIT -1 OFFSET " ++ displayNat n) =
              " " ++ "LIMIT -1" ++ (" OFFSET " ++ displayNat n) := by
            rw [← String.append_assoc, ← String.append_assoc]
            rfl
          have hshows := shows_text (prints_offset hwords n)
          rw [← htext] at hshows
          exact ⟨_, hshows, .present (.offset (.none 0) n)⟩
  | some l =>
      cases s.first with
      | none => exact ⟨_, shows_text (prints_limit l), .present (.limit (.some l))⟩
      | some n =>
          have htext : " " ++ ("LIMIT " ++ displayNat l ++ " OFFSET " ++ displayNat n) =
              " " ++ ("LIMIT " ++ displayNat l) ++ (" OFFSET " ++ displayNat n) := by
            simp only [String.append_assoc]
          have hshows := shows_text (prints_offset (prints_limit l) n)
          rw [← htext] at hshows
          exact ⟨_, hshows, .present (.offset (.some l) n)⟩

theorem prints_target :
    ∃ ts, Prints Apart (s.target embedded).toList [] ts ∧ Target ts (s.projection, s.distinct) := by
  obtain ⟨table, projection, distinct, conditions, orders, first, limit⟩ := s
  cases projection with
  | rows =>
      cases distinct with
      | false =>
          have hrows : Prints Apart ("" ++ "*").toList [] [mark '*'] :=
            prints_fixed (by decide) (by simp)
          exact ⟨_, hrows, .rows⟩
      | true =>
          have hrows : Prints Apart ("DISTINCT " ++ "*").toList [] [word "DISTINCT", mark '*'] :=
            prints_fixed (by decide) (by simp)
          exact ⟨_, hrows, .distinctRows⟩
  | column n =>
      cases distinct with
      | false =>
          have hcolumn : Prints Apart ("" ++ quoted n).toList [] [name n] := by
            rw [String.empty_append]
            exact prints_quoted n
          exact ⟨_, hcolumn, .column n⟩
      | true =>
          have hword : Prints Anything "DISTINCT ".toList [] [word "DISTINCT"] :=
            prints_literal (by decide) (by simp)
          have hcolumn : Prints Apart ("DISTINCT " ++ quoted n).toList []
              [word "DISTINCT", name n] := by
            rw [String.toList_append]
            exact hword.append (prints_quoted n) fun _ _ => trivial
          exact ⟨_, hcolumn, .distinctColumn n⟩
  | count =>
      cases distinct with
      | false =>
          have hcount : Prints Apart "COUNT(*)".toList []
              [word "COUNT", mark '(', mark '*', mark ')'] :=
            prints_fixed (by decide) (by simp)
          exact ⟨_, hcount, .count⟩
      | true =>
          have hcount : Prints Apart ("COUNT(DISTINCT " ++ quoted Row.idColumn ++ ")").toList []
              [word "COUNT", mark '(', word "DISTINCT", name Row.idColumn, mark ')'] :=
            prints_fixed (by decide) (by simp)
          exact ⟨_, hcount, .distinctCount⟩

def reading : Reading where
  table := s.table
  projection := s.projection
  distinct := s.distinct
  condition := .allOf (Condition.trees s.conditions)
  orders := if s.projection = .count then [] else s.orders
  first := if s.projection = .count then none else s.first
  limit := if s.projection = .count then none else s.limit

theorem breaks_window : Breaks (s.window embedded) := by
  rw [window]
  split
  · exact fun _ h => h
  · exact breaks_blank _ _

theorem breaks_ordering (orders : List Order) {st : Statement} (h : Breaks st) :
    Breaks (ordering embedded orders ++ st) := by
  cases orders with
  | nil => exact h
  | cons o rest => exact breaks_text rfl (by decide) _

theorem breaks_restriction (conditions : List Condition) {st : Statement} (h : Breaks st) :
    Breaks (restriction embedded conditions ++ st) := by
  match conditions with
  | [] => exact h
  | [c] => exact breaks_text rfl (by decide) _
  | c :: d :: rest => exact breaks_text rfl (by decide) _

theorem breaks_tail : Breaks (s.tail embedded) := by
  rw [tail]
  split
  · exact fun _ h => h
  · exact breaks_ordering _ s.breaks_window

def Tail (ts : List Token) (x : List Order × Option Nat × Option Nat) : Prop :=
  ∃ us vs, ts = us ++ vs ∧ Sorting us x.1 ∧ Window vs x.2

theorem renders_tail :
    Renders Tail (s.tail embedded) (s.reading.orders, s.reading.first, s.reading.limit) := by
  rw [tail, reading]
  split
  · rename_i hcount
    rw [hcount]
    exact ⟨[], prints_nil, [], [], rfl, .absent, .absent⟩
  · rename_i hrows
    obtain ⟨us, hus, hsorting⟩ := renders_ordering s.orders
    obtain ⟨vs, hvs, hwindow⟩ := s.renders_window
    simp only [if_neg hrows]
    exact ⟨_, hus.append hvs s.breaks_window, us, vs, rfl, hsorting, hwindow⟩

theorem renders_statement : Renders Selection (s.statement embedded) s.reading := by
  obtain ⟨ts, hts, htarget⟩ := s.prints_target
  obtain ⟨us, hus, hrestriction⟩ := renders_restriction s.conditions
  obtain ⟨vs, hvs, sorting, window, rfl, hsorting, hwindow⟩ := s.renders_tail
  have hselect : Prints Anything "SELECT ".toList [] [word "SELECT"] :=
    prints_literal (by decide) (by simp)
  have hfrom : Prints Anything " FROM ".toList [] [word "FROM"] :=
    prints_literal (by decide) (by simp)
  have htable : Prints Apart (" FROM ".toList ++ (quoted s.table).toList) []
      [word "FROM", name s.table] := hfrom.append (prints_quoted s.table) fun _ _ => trivial
  have hcolumns := hselect.append (hts.append htable fun rest _ => apart_cons (by decide) _)
    fun _ _ => trivial
  have hhead : Shows Apart [.text ("SELECT " ++ s.target embedded ++ " FROM " ++ quoted s.table)]
      ([word "SELECT"] ++ (ts ++ [word "FROM", name s.table])) := by
    refine shows_text ?_
    simpa only [String.toList_append, List.append_assoc, List.append_nil] using hcolumns
  have hclauses := hus.append hvs s.breaks_tail
  have hall := hhead.append hclauses (breaks_restriction _ s.breaks_tail)
  refine ⟨_, hall, ?_⟩
  have htokens : [word "SELECT"] ++ (ts ++ [word "FROM", name s.table]) ++
      (us ++ (sorting ++ window)) =
        word "SELECT" :: (ts ++ word "FROM" :: name s.table :: (us ++ (sorting ++ window))) := by
    simp
  rw [htokens]
  exact .select htarget s.table hrestriction hsorting hwindow

end Select

def Reads (text : String) (values : List Value) (r : Reading) : Prop :=
  ∃ ts, filled? text.toList values = some ts ∧ Selection ts r

end Sql

def Query.reading (q : Query) (projection : Projection) : Sql.Grammar.Reading where
  table := q.entity
  projection := projection
  distinct := q.distinct
  condition := (Predicate.all q.predicates).normal q.bindings
  orders := if projection = .count then [] else q.orders
  first := if projection = .count then none else q.first
  limit := if projection = .count then none else q.limit

namespace Sql

open RecordQuery.Sql.Grammar

theorem reads_iff {q : Query} {projection : Projection} {st : Statement}
    (h : render embedded q projection = .ok st) (r : Reading) :
    Reads (st.write embedded) st.values r ↔ r = q.reading projection := by
  obtain ⟨s, hs, rfl⟩ := exists_of_map_eq_ok h
  obtain ⟨conditions, hconditions, rfl⟩ := exists_of_map_eq_ok hs
  obtain ⟨ts, hts, hselection⟩ := Select.renders_statement
    ⟨q.entity, projection, q.distinct, conditions, q.orders, q.first, q.limit⟩
  have hreading : Select.reading
      ⟨q.entity, projection, q.distinct, conditions, q.orders, q.first, q.limit⟩ =
        q.reading projection := by
    rw [Select.reading, Query.reading, Predicate.normal, Condition.trees_ofPredicates hconditions]
  rw [hreading] at hselection
  constructor
  · rintro ⟨us, hus, hread⟩
    have htokens : us = ts := Option.some.inj (hus.symm.trans hts.filled)
    exact selection_inj hread hselection htokens
  · rintro rfl
    exact ⟨ts, hts.filled, hselection⟩

def awkward : Query where
  entity := "a \"b\" WHERE 1"
  predicates := [
    .any [.compare (.field "x\" AND \"y") .eq (.param "p"),
      .all [.negate (.any [.isNull (.field "?"), .all []]), .literal true]],
    .all [.any [.among (.field "k") [], .among (.field "k") [.int 1, .null]]],
    .like (.lower (.field "NOT (")) "50\\%" (some '\\')]
  parameters := [("p", .int 7)]
  orders := [⟨.lower (.field "ORDER BY"), .desc⟩]
  distinct := true
  first := some 3

theorem reads_iff_awkward : ∃ st, render embedded awkward .rows = .ok st ∧
    st.write embedded = "SELECT DISTINCT * FROM \"a \"\"b\"\" WHERE 1\" WHERE " ++
      "(\"x\"\" AND \"\"y\" = ? OR (NOT (\"?\" IS NULL OR 1) AND 1)) AND " ++
      "((0 OR \"k\" IN (?, ?))) AND lower(\"NOT (\") LIKE ? ESCAPE ? " ++
      "ORDER BY lower(\"ORDER BY\") DESC LIMIT -1 OFFSET 3" ∧
    (awkward.reading .rows).condition = .all [
      .any [.compare (.field "x\" AND \"y") .eq (.value (.int 7)),
        .all [.negate (.any [.isNull (.field "?"), .literal true]), .literal true]],
      .any [.literal false, .among (.field "k") [.int 1, .null]],
      .like (.lower (.field "NOT (")) "50\\%" (some '\\')] ∧
    ∀ r, Reads (st.write embedded) st.values r ↔ r = awkward.reading .rows :=
  ⟨_, rfl, by decide +kernel, rfl, reads_iff rfl⟩

end Sql

end RecordQuery
