import RecordQuery.Proofs.Data.Except
import RecordQuery.Proofs.Data.Keyed
import RecordQuery.Proofs.Sql.Printing

namespace RecordQuery

def Operand.form : Operand → Operand
  | value _ => value .null
  | param name => param name

namespace Predicate

mutual

def form : Predicate → Predicate
  | compare e op operand => compare e op operand.form
  | among e values => among e (values.map fun _ => .null)
  | like e _ escape => like e "" (escape.map fun _ => '\\')
  | negate inner => negate (form inner)
  | all items => all (formAll items)
  | any items => any (formAll items)
  | p => p

def formAll : List Predicate → List Predicate
  | [] => []
  | p :: rest => form p :: formAll rest

end

mutual

def slots : Predicate → List Operand
  | compare _ _ operand => [operand]
  | among _ values => values.map .value
  | like _ pattern none => [.value (.text pattern)]
  | like _ pattern (some c) => [.value (.text pattern), .value (.text (String.ofList [c]))]
  | negate inner => slots inner
  | all items => slotsAll items
  | any items => slotsAll items
  | _ => []

def slotsAll : List Predicate → List Operand
  | [] => []
  | p :: rest => slots p ++ slotsAll rest

end

end Predicate

namespace Query

def form (q : Query) : Query :=
  { q with
    predicates := Predicate.formAll q.predicates
    parameters := q.parameters.map fun x => (x.1, .null) }

theorem bindings_form (q : Query) : q.form.bindings = q.bindings.map fun _ => Value.null :=
  Keyed.ofList_map (fun _ => Value.null) q.parameters

end Query

theorem Operand.value?_form (params : Parameters) (operand : Operand) :
    operand.form.value? (params.map fun _ => .null) =
      (operand.value? params).map fun _ => .null := by
  cases operand with
  | value v => rfl
  | param name =>
      simp only [form, value?, Keyed.get?_map]
      cases params.get? name <;> rfl

namespace Sql

variable (d : Dialect)

def Piece.form : Piece → Piece
  | text s => text s
  | bind _ => bind .null

namespace Statement

def form (st : Statement) : Statement := st.map Piece.form

@[simp] theorem form_append (st st' : Statement) : form (st ++ st') = form st ++ form st' :=
  List.map_append

@[simp] theorem form_text (s : String) (st : Statement) :
    form (.text s :: st) = .text s :: form st := rfl

@[simp] theorem form_bind (v : Value) (st : Statement) :
    form (.bind v :: st) = .bind .null :: form st := rfl

@[simp] theorem form_nil : form [] = [] := rfl

theorem form_joined (separator : String) (sts : List Statement) :
    form (joined separator sts) = joined separator (sts.map form) := by
  induction sts with
  | nil => rfl
  | cons st sts ih =>
      cases sts with
      | nil => rfl
      | cons st' sts =>
          have htail : form (joined separator (st :: st' :: sts)) =
              form st ++ .text separator :: form (joined separator (st' :: sts)) := form_append ..
          rw [htail, ih]
          rfl

theorem form_grouped (b : Bool) (st : Statement) : form (grouped b st) = grouped b (form st) := by
  cases b with
  | false => rfl
  | true => simp [grouped]

def gaps : Statement → List String
  | [] => [""]
  | .text s :: rest => (gaps rest).modifyHead (s ++ ·)
  | .bind _ :: rest => "" :: gaps rest

theorem gaps_form (st : Statement) : (form st).gaps = st.gaps := by
  induction st with
  | nil => rfl
  | cons piece st ih =>
      cases piece with
      | text s => rw [form_text, gaps, gaps, ih]
      | bind v => rw [form_bind, gaps, gaps, ih]

theorem length_gaps (st : Statement) : st.gaps.length = st.values.length + 1 := by
  induction st with
  | nil => rfl
  | cons piece st ih =>
      cases piece with
      | text s => rw [gaps, List.length_modifyHead, ih, values]
      | bind v => rw [gaps, values, List.length_cons, List.length_cons, ih]

end Statement

def woven (mark : Nat → String) : Nat → List String → String
  | _, [] => ""
  | _, [s] => s
  | n, s :: rest => s ++ mark n ++ woven mark (n + 1) rest

theorem woven_modifyHead (mark : Nat → String) (n : Nat) (s : String) {texts : List String}
    (h : texts ≠ []) : woven mark n (texts.modifyHead (s ++ ·)) = s ++ woven mark n texts := by
  match texts with
  | [t] => rfl
  | t :: u :: rest => simp [woven, String.append_assoc]

theorem woven_cons (mark : Nat → String) (n : Nat) (s : String) {texts : List String}
    (h : texts ≠ []) : woven mark n (s :: texts) = s ++ mark n ++ woven mark (n + 1) texts := by
  match texts with
  | t :: rest => rfl

theorem Statement.gaps_ne_nil (st : Statement) : st.gaps ≠ [] := by
  intro h
  have hlength := st.length_gaps
  rw [h] at hlength
  cases hlength

theorem Statement.writeFrom_eq (n : Nat) (st : Statement) :
    writeFrom d n st = woven d.placeholder n st.gaps := by
  induction st generalizing n with
  | nil => rfl
  | cons piece st ih =>
      cases piece with
      | text s => rw [writeFrom, gaps, woven_modifyHead _ _ _ (gaps_ne_nil st), ih]
      | bind v => rw [writeFrom, gaps, woven_cons _ _ _ (gaps_ne_nil st), ih, String.empty_append]

theorem Statement.write_eq (st : Statement) : st.write d = woven d.placeholder 1 st.gaps :=
  writeFrom_eq d 1 st

namespace Condition

mutual

def form : Condition → Condition
  | compare e op _ => compare e op .null
  | among e _ rest => among e .null (rest.map fun _ => .null)
  | like e _ escape => like e "" (escape.map fun _ => '\\')
  | negate inner => negate (form inner)
  | all first rest => all (form first) (formAll rest)
  | any first rest => any (form first) (formAll rest)
  | c => c

def formAll : List Condition → List Condition
  | [] => []
  | c :: rest => form c :: formAll rest

end

theorem form_allOf (cs : List Condition) : (allOf cs).form = allOf (formAll cs) := by
  cases cs <;> rfl

theorem form_anyOf (cs : List Condition) : (anyOf cs).form = anyOf (formAll cs) := by
  cases cs <;> rfl

theorem form_amongOf (e : Expr) (values : List Value) :
    (amongOf e values).form = amongOf e (values.map fun _ => .null) := by
  cases values <;> rfl

section

variable (params : Parameters)

mutual

theorem ofPredicate_form : ∀ p : Predicate,
    ofPredicate (params.map fun _ => .null) p.form = (ofPredicate params p).map form
  | .literal b => rfl
  | .compare e op operand => by
      rw [Predicate.form, ofPredicate, ofPredicate, Operand.value?_form]
      cases operand.value? params <;> rfl
  | .compareFields left op right => rfl
  | .among e values => by
      rw [Predicate.form, ofPredicate, ofPredicate, Except.map, form_amongOf]
  | .isNull e => rfl
  | .isNotNull e => rfl
  | .like e pattern escape => rfl
  | .negate inner => by
      rw [Predicate.form, ofPredicate, ofPredicate, ofPredicate_form inner]
      cases ofPredicate params inner <;> rfl
  | .all items => by
      rw [Predicate.form, ofPredicate, ofPredicate, ofPredicates_form items]
      cases ofPredicates params items with
      | error fault => rfl
      | ok cs => exact congrArg Except.ok (form_allOf cs).symm
  | .any items => by
      rw [Predicate.form, ofPredicate, ofPredicate, ofPredicates_form items]
      cases ofPredicates params items with
      | error fault => rfl
      | ok cs => exact congrArg Except.ok (form_anyOf cs).symm

theorem ofPredicates_form : ∀ ps : List Predicate,
    ofPredicates (params.map fun _ => .null) (Predicate.formAll ps) =
      (ofPredicates params ps).map formAll
  | [] => rfl
  | p :: rest => by
      rw [Predicate.formAll, ofPredicates, ofPredicates, ofPredicate_form p,
        ofPredicates_form rest]
      cases ofPredicate params p with
      | error fault => rfl
      | ok c => cases ofPredicates params rest <;> rfl

end

end

theorem form_bindings (values : List Value) :
    (values.map ([Piece.bind ·])).map Statement.form =
      ((values.map fun _ => Value.null).map ([Piece.bind ·])).map Statement.form := by
  induction values with
  | nil => rfl
  | cons v rest ih => exact congrArg (_ :: ·) ih

mutual

theorem form_statement (g : Bool) : ∀ c : Condition,
    (c.form.statement d g).form = (c.statement d g).form
  | constant b => rfl
  | compare e op v => rfl
  | compareFields left op right => rfl
  | among e first rest => by
      have hvalues := form_bindings (first :: rest)
      rw [form, statement, statement, List.cons_append, List.cons_append, Statement.form_text,
        Statement.form_text, Statement.form_append, Statement.form_append, Statement.form_joined,
        Statement.form_joined, hvalues]
      rfl
  | isNull e => rfl
  | isNotNull e => rfl
  | like e pattern none => rfl
  | like e pattern (some c) => rfl
  | negate inner => by
      rw [form, statement, statement, List.cons_append, List.cons_append, Statement.form_text,
        Statement.form_text, Statement.form_append, Statement.form_append,
        form_statement false inner]
  | all first rest => by
      rw [form, statement, statement, Statement.form_grouped, Statement.form_grouped,
        Statement.form_joined, Statement.form_joined, List.map_cons, List.map_cons,
        form_statement true first, form_statements rest]
  | any first rest => by
      rw [form, statement, statement, Statement.form_grouped, Statement.form_grouped,
        Statement.form_joined, Statement.form_joined, List.map_cons, List.map_cons,
        form_statement true first, form_statements rest]

theorem form_statements : ∀ cs : List Condition,
    (statements d (formAll cs)).map Statement.form = (statements d cs).map Statement.form
  | [] => rfl
  | c :: rest => by
      rw [formAll, statements, statements, List.map_cons, List.map_cons, form_statement true c,
        form_statements rest]

end

end Condition

namespace Select

open Statement

def form (s : Select) : Select := { s with conditions := Condition.formAll s.conditions }

theorem form_restriction (conditions : List Condition) :
    (restriction d (Condition.formAll conditions)).form = (restriction d conditions).form := by
  match conditions with
  | [] => rfl
  | [c] => exact congrArg (_ :: ·) (Condition.form_statement d false c)
  | c :: c' :: rest =>
      have hjoined :
          (joined " AND " (Condition.statements d (Condition.formAll (c :: c' :: rest)))).form =
            (joined " AND " (Condition.statements d (c :: c' :: rest))).form := by
        rw [form_joined, form_joined, Condition.form_statements]
      exact congrArg (_ :: ·) hjoined

theorem form_statement (s : Select) : (s.form.statement d).form = (s.statement d).form := by
  have hrestriction := form_restriction d s.conditions
  rw [statement, statement, List.cons_append, List.cons_append, Statement.form_text,
    Statement.form_text, Statement.form_append, Statement.form_append]
  exact congrArg (fun st => _ :: (st ++ _)) hrestriction

end Select

theorem Select.ofQuery_form (q : Query) (projection : Projection) :
    Select.ofQuery q.form projection = (Select.ofQuery q projection).map Select.form := by
  rw [Select.ofQuery, Select.ofQuery, Query.bindings_form, Query.form,
    Condition.ofPredicates_form]
  cases Condition.ofPredicates q.bindings q.predicates <;> rfl

theorem form_render {q q' : Query} {projection : Projection} {st st' : Statement}
    (h : q.form = q'.form) (hst : render d q projection = .ok st)
    (hst' : render d q' projection = .ok st') : st.form = st'.form := by
  obtain ⟨s, hs, rfl⟩ := map_eq_ok.mp hst
  obtain ⟨s', hs', rfl⟩ := map_eq_ok.mp hst'
  have hform := Select.ofQuery_form q projection
  rw [h, Select.ofQuery_form q' projection, hs, hs'] at hform
  have hselect : s'.form = s.form := Except.ok.inj hform
  rw [← Select.form_statement, ← hselect, Select.form_statement]

def Dialect.withPlaceholder (placeholder : Nat → String) : Dialect :=
  { d with placeholder := placeholder }

section

variable (placeholder : Nat → String)

theorem expr_withPlaceholder (e : Expr) : expr (d.withPlaceholder placeholder) e = expr d e := by
  induction e with
  | field name => rfl
  | lower inner ih => rw [expr, expr, ih]

namespace Condition

mutual

theorem statement_withPlaceholder (g : Bool) : ∀ c : Condition,
    c.statement (d.withPlaceholder placeholder) g = c.statement d g
  | constant b => rfl
  | compare e op v => by rw [statement, statement, expr_withPlaceholder]
  | compareFields left op right => by
      rw [statement, statement, expr_withPlaceholder, expr_withPlaceholder]
  | among e first rest => by rw [statement, statement, expr_withPlaceholder]
  | isNull e => by rw [statement, statement, expr_withPlaceholder]
  | isNotNull e => by rw [statement, statement, expr_withPlaceholder]
  | like e pattern none => by rw [statement, statement, expr_withPlaceholder]
  | like e pattern (some c) => by rw [statement, statement, expr_withPlaceholder]
  | negate inner => by rw [statement, statement, statement_withPlaceholder false inner]
  | all first rest => by
      rw [statement, statement, statement_withPlaceholder true first,
        statements_withPlaceholder rest]
  | any first rest => by
      rw [statement, statement, statement_withPlaceholder true first,
        statements_withPlaceholder rest]

theorem statements_withPlaceholder : ∀ cs : List Condition,
    statements (d.withPlaceholder placeholder) cs = statements d cs
  | [] => rfl
  | c :: rest => by
      rw [statements, statements, statement_withPlaceholder true c,
        statements_withPlaceholder rest]

end

end Condition

namespace Select

theorem restriction_withPlaceholder (conditions : List Condition) :
    restriction (d.withPlaceholder placeholder) conditions = restriction d conditions := by
  match conditions with
  | [] => rfl
  | [c] => exact congrArg (_ :: ·) (c.statement_withPlaceholder d placeholder false)
  | c :: c' :: rest =>
      exact congrArg (_ :: Statement.joined " AND " ·)
        (Condition.statements_withPlaceholder d placeholder (c :: c' :: rest))

theorem ordering_withPlaceholder (orders : List Order) :
    ordering (d.withPlaceholder placeholder) orders = ordering d orders := by
  cases orders with
  | nil => rfl
  | cons o rest => simp only [ordering, expr_withPlaceholder]

theorem statement_withPlaceholder (s : Select) :
    s.statement (d.withPlaceholder placeholder) = s.statement d := by
  have htail : s.tail (d.withPlaceholder placeholder) = s.tail d := by
    simp only [tail, ordering_withPlaceholder]
    rfl
  rw [statement, statement, restriction_withPlaceholder, htail]
  rfl

end Select

theorem render_withPlaceholder (q : Query) (projection : Projection) :
    render (d.withPlaceholder placeholder) q projection = render d q projection := by
  have hstatement : Select.statement (d.withPlaceholder placeholder) = Select.statement d :=
    funext (Select.statement_withPlaceholder d placeholder)
  rw [render, render, hstatement]

end

namespace Statement

theorem values_joined (separator : String) (sts : List Statement) :
    (joined separator sts).values = sts.flatMap values := by
  induction sts with
  | nil => rfl
  | cons st sts ih =>
      cases sts with
      | nil => rw [joined, List.flatMap_singleton]
      | cons st' sts =>
          have hvalues : (joined separator (st :: st' :: sts)).values =
              st.values ++ (joined separator (st' :: sts)).values := values_append ..
          rw [hvalues, ih]
          rfl

theorem values_grouped (b : Bool) (st : Statement) : (grouped b st).values = st.values := by
  cases b with
  | false => rfl
  | true => exact (values_append st [.text ")"]).trans (List.append_nil _)

end Statement

open Statement

namespace Condition

variable {params : Parameters}

theorem values_bindings (values : List Value) :
    (values.map ([Piece.bind ·])).flatMap Statement.values = values := by
  induction values with
  | nil => rfl
  | cons v rest ih => exact congrArg (v :: ·) ih

mutual

theorem values_statement (g : Bool) : ∀ {p : Predicate} {c : Condition},
    ofPredicate params p = .ok c →
      (c.statement d g).values.map Except.ok = p.slots.map (Operand.value? params)
  | .literal b, c, h => by
      cases h
      rfl
  | .compare e op operand, c, h => by
      obtain ⟨v, hv, rfl⟩ := map_eq_ok.mp h
      rw [Predicate.slots, List.map_singleton, hv]
      rfl
  | .compareFields left op right, c, h => by
      cases h
      rfl
  | .among e [], c, h => by
      cases h
      rfl
  | .among e (v :: rest), c, h => by
      cases h
      have hvalues : (statement d g (among e v rest)).values = v :: rest := by
        rw [statement, List.cons_append, values, values_append, values_joined, values_bindings]
        exact List.append_nil _
      rw [amongOf, hvalues, Predicate.slots, List.map_map]
      rfl
  | .isNull e, c, h => by
      cases h
      rfl
  | .isNotNull e, c, h => by
      cases h
      rfl
  | .like e pattern none, c, h => by
      cases h
      rfl
  | .like e pattern (some escape), c, h => by
      cases h
      rfl
  | .negate inner, c, h => by
      obtain ⟨c, hc, rfl⟩ := map_eq_ok.mp h
      rw [statement, List.cons_append, values, values_append, List.map_append,
        values_statement false hc]
      exact List.append_nil _
  | .all items, c, h => by
      obtain ⟨cs, hcs, rfl⟩ := map_eq_ok.mp h
      have hvalues : (statement d g (allOf cs)).values = (statements d cs).flatMap values := by
        cases cs with
        | nil => rfl
        | cons c rest => rw [allOf, statement, values_grouped, values_joined, statements]
      rw [hvalues, values_statements hcs, Predicate.slots]
  | .any items, c, h => by
      obtain ⟨cs, hcs, rfl⟩ := map_eq_ok.mp h
      have hvalues : (statement d g (anyOf cs)).values = (statements d cs).flatMap values := by
        cases cs with
        | nil => rfl
        | cons c rest => rw [anyOf, statement, values_grouped, values_joined, statements]
      rw [hvalues, values_statements hcs, Predicate.slots]

theorem values_statements : ∀ {ps : List Predicate} {cs : List Condition},
    ofPredicates params ps = .ok cs →
      ((statements d cs).flatMap Statement.values).map Except.ok =
        (Predicate.slotsAll ps).map (Operand.value? params)
  | [], cs, h => by
      cases h
      rfl
  | p :: rest, cs, h => by
      rw [ofPredicates] at h
      split at h
      · cases h
      · rename_i c hc
        obtain ⟨cs, hcs, rfl⟩ := map_eq_ok.mp h
        rw [statements, List.flatMap_cons, List.map_append, values_statement true hc,
          values_statements hcs, Predicate.slotsAll, List.map_append]

end

end Condition

theorem Condition.values_ungrouped (c : Condition) :
    (c.statement d false).values = (c.statement d true).values := by
  cases c with
  | all first rest => rw [statement, statement, values_grouped, values_grouped]
  | any first rest => rw [statement, statement, values_grouped, values_grouped]
  | like e pattern escape => cases escape <;> rfl
  | _ => rfl

namespace Select

theorem values_restriction (conditions : List Condition) :
    (restriction d conditions).values =
      (Condition.statements d conditions).flatMap Statement.values := by
  match conditions with
  | [] => rfl
  | [c] => exact (c.values_ungrouped d).trans (List.flatMap_singleton ..).symm
  | c :: c' :: rest => exact values_joined " AND " (Condition.statements d (c :: c' :: rest))

theorem values_ordering (orders : List Order) : (ordering d orders).values = [] := by
  cases orders with
  | nil => rfl
  | cons o rest =>
      rw [ordering, values, values_joined, List.flatMap_eq_nil_iff]
      · rintro st hst
        obtain ⟨o', -, rfl⟩ := List.mem_map.mp hst
        rfl
      · exact List.cons_ne_nil o rest

theorem values_window (s : Select) : (s.window d).values = [] := by
  rw [window]
  split <;> rfl

theorem values_statement (s : Select) :
    (s.statement d).values = (Condition.statements d s.conditions).flatMap Statement.values := by
  have htail : (s.tail d).values = [] := by
    rw [tail]
    split
    · rfl
    · rw [values_append, values_ordering, values_window, List.append_nil]
  rw [statement, List.cons_append, values, values_append, values_restriction, htail,
    List.append_nil]

end Select

variable {q q' : Query} {projection : Projection} {st st' : Statement}

structure Parameterized (q : Query) (projection : Projection) (st : Statement) : Prop where
  places : st.gaps.length = st.values.length + 1
  text : ∀ placeholder : Nat → String,
    render (d.withPlaceholder placeholder) q projection = .ok st ∧
      st.write (d.withPlaceholder placeholder) = woven placeholder 1 st.gaps
  values : st.values.map Except.ok =
    (Predicate.slotsAll q.predicates).map (Operand.value? q.bindings)

theorem parameterized_of_render (h : render d q projection = .ok st) :
    Parameterized d q projection st where
  places := st.length_gaps
  text placeholder :=
    ⟨(render_withPlaceholder d placeholder q projection).trans h, st.write_eq _⟩
  values := by
    obtain ⟨s, hs, rfl⟩ := map_eq_ok.mp h
    obtain ⟨conditions, hconditions, rfl⟩ := map_eq_ok.mp hs
    rw [Select.values_statement, Condition.values_statements d hconditions]

theorem text_independent (hform : q.form = q'.form) (h : render d q projection = .ok st)
    (h' : render d q' projection = .ok st') :
    st.write d = st'.write d ∧ st.gaps = st'.gaps ∧ Parameterized d q projection st ∧
      Parameterized d q' projection st' := by
  have hgaps : st.gaps = st'.gaps := by
    rw [← gaps_form st, form_render d hform h h', gaps_form]
  refine ⟨?_, hgaps, parameterized_of_render d h, parameterized_of_render d h'⟩
  rw [write_eq, write_eq, hgaps]

def search (who : String) (age other : Value) (pattern : String) (escape : Char) : Query where
  entity := "person"
  predicates := [
    .any [.compare (.lower (.field "name")) .eq (.param "who"),
      .negate (.all [.among (.field "age") [age, other],
        .like (.field "name") pattern (some escape)])],
    .among (.field "age") [],
    .compare (.field "age") .ge (.value other)]
  parameters := [("who", .text who)]

theorem text_independent_search : ∃ st st',
    render embedded (search "ann" (.int 1) .null "a%" '!') .rows = .ok st ∧
    render embedded (search "' OR 1; --" (.text "?") (.bool true) "\"" '?') .rows = .ok st' ∧
    st.write embedded = "SELECT * FROM \"person\" WHERE (lower(\"name\") = ? OR " ++
      "NOT (\"age\" IN (?, ?) AND \"name\" LIKE ? ESCAPE ?)) AND 0 AND \"age\" >= ?" ∧
    st'.values = [.text "' OR 1; --", .text "?", .bool true, .text "\"", .text "?", .bool true] ∧
    st.write embedded = st'.write embedded ∧ st.gaps = st'.gaps ∧
    Parameterized embedded (search "ann" (.int 1) .null "a%" '!') .rows st ∧
    Parameterized embedded (search "' OR 1; --" (.text "?") (.bool true) "\"" '?') .rows st' :=
  ⟨_, _, rfl, rfl, by decide +kernel, rfl, text_independent embedded rfl rfl rfl⟩

end Sql

end RecordQuery
