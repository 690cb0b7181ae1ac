import Mathlib.Data.List.Forall2
import RecordQuery.Proofs.Sql.Grammar
import RecordQuery.Sql.Statement

namespace RecordQuery.Sql

open RecordQuery.Text RecordQuery.Sql.Token RecordQuery.Sql.Grammar

namespace Statement

def chars (st : Statement) : List Char := (st.write embedded).toList

theorem writeFrom_embedded (n : Nat) (st : Statement) :
    writeFrom embedded n st = st.write embedded := by
  have hall : ∀ n m, writeFrom embedded n st = writeFrom embedded m st := by
    induction st with
    | nil => exact fun _ _ => rfl
    | cons piece st ih =>
        intro n m
        cases piece with
        | text s => rw [writeFrom, writeFrom, ih n m]
        | bind v =>
            rw [writeFrom, writeFrom, ih (n + 1) (m + 1)]
            rfl
  exact hall n 1

theorem chars_text (s : String) (st : Statement) :
    chars (.text s :: st) = s.toList ++ chars st := by
  rw [chars, write, writeFrom, String.toList_append]
  rfl

theorem chars_bind (v : Value) (st : Statement) : chars (.bind v :: st) = '?' :: chars st := by
  rw [chars, write, writeFrom, writeFrom_embedded, String.toList_append]
  rfl

theorem chars_append (st st' : Statement) : chars (st ++ st') = chars st ++ chars st' := by
  induction st with
  | nil => rfl
  | cons piece st ih =>
      cases piece with
      | text s => rw [List.cons_append, chars_text, chars_text, ih, List.append_assoc]
      | bind v => rw [List.cons_append, chars_bind, chars_bind, ih, List.cons_append]

theorem values_append (st st' : Statement) : values (st ++ st') = values st ++ values st' := by
  induction st with
  | nil => rfl
  | cons piece st ih =>
      cases piece with
      | text s => exact ih
      | bind v => exact congrArg (v :: ·) ih

end Statement

open Statement

def Shows (Behind : List Char → Prop) (st : Statement) (ts : List Token) : Prop :=
  Prints Behind st.chars st.values ts

variable {P Q : List Char → Prop} {st st' : Statement} {ts us : List Token} {s : String}

theorem Shows.append (h : Shows P st ts) (h' : Shows Q st' us)
    (hbehind : ∀ rest, Q rest → P (st'.chars ++ rest)) : Shows Q (st ++ st') (ts ++ us) := by
  unfold Shows
  rw [chars_append, values_append]
  exact Prints.append h h' hbehind

theorem shows_text (h : Prints P s.toList [] ts) : Shows P [.text s] ts := by
  unfold Shows
  rw [chars_text]
  simpa [chars, write, writeFrom, values] using h

theorem shows_bind (v : Value) : Shows Anything [.bind v] [value v] := by
  unfold Shows
  rw [chars_bind]
  exact prints_value v

def Breaks (st : Statement) : Prop := ∀ rest, Apart rest → Apart (st.chars ++ rest)

theorem breaks_text {c : Char} {w : List Char} (hs : s.toList = c :: w)
    (hc : Kind.of? c = none ∧ c ≠ '"') (st : Statement) : Breaks (.text s :: st) := by
  intro rest _
  rw [chars_text, hs]
  exact apart_cons hc _

theorem shows_enclosed {opening : String} (h : Shows Apart st ts)
    (hopening : Prints Anything opening.toList [] us) :
    Shows Apart (.text opening :: st ++ [.text ")"]) (us ++ ts ++ [mark ')']) := by
  have henclosed := h.enclosed hopening
  rw [Shows, List.cons_append, chars_text, chars_append, values, values_append, chars_text]
  simpa [chars, write, writeFrom, values] using henclosed

def Renders {α : Type} (R : List Token → α → Prop) (st : Statement) (x : α) : Prop :=
  ∃ ts, Shows Apart st ts ∧ R ts x

theorem renders_joined {α : Type} {Item : List Token → α → Prop} {separator : Token}
    (hseparator : Prints Anything s.toList [] [separator]) (hbreaks : ∀ st, Breaks (.text s :: st))
    {sts : List Statement} {xs : List α} (h : List.Forall₂ (Renders Item) sts xs) (hne : xs ≠ []) :
    Renders (Separated separator Item) (joined s sts) xs := by
  induction h with
  | nil => exact absurd rfl hne
  | @cons st x sts xs hitem hrest ih =>
      obtain ⟨ts, hts, hitem⟩ := hitem
      cases hrest with
      | nil => exact ⟨ts, hts, .one hitem⟩
      | @cons st' x' sts xs hitem' hrest =>
          obtain ⟨us, hus, hrests⟩ := ih (List.cons_ne_nil _ _)
          have htail : Shows Apart (.text s :: joined s (st' :: sts)) (separator :: us) :=
            (shows_text hseparator).append hus fun _ _ => trivial
          exact ⟨_, hts.append htail (hbreaks _), .more hitem hrests⟩

theorem renders_commas {α : Type} {Item : List Token → α → Prop} {print : α → Statement}
    (h : ∀ x, Renders Item (print x) x) {xs : List α} (hne : xs ≠ []) :
    Renders (Separated (mark ',') Item) (joined ", " (xs.map print)) xs := by
  have hseparator : Prints Anything ", ".toList [] [mark ','] :=
    prints_literal (by decide) (by simp)
  have hitems : List.Forall₂ (Renders Item) (xs.map print) xs := by
    rw [List.forall₂_map_left_iff, List.forall₂_same]
    exact fun x _ => h x
  exact renders_joined hseparator (breaks_text rfl (by decide)) hitems hne

theorem prints_expr (e : Expr) : ∃ ts, Prints Apart (expr embedded e).toList [] ts ∧ Term ts e := by
  induction e with
  | field n => exact ⟨_, prints_quoted n, .column n⟩
  | lower inner ih =>
      obtain ⟨ts, hts, hterm⟩ := ih
      have hopening : Prints Anything "lower(".toList [] [word "LOWER", mark '('] :=
        prints_literal (by decide) (by simp)
      rw [expr, String.toList_append, String.toList_append]
      exact ⟨_, hts.enclosed hopening, .lower hterm⟩

def Factor (ts : List Token) (p : Predicate) : Prop := Phrase .factor ts [p]

theorem shows_joined_text {opening : String} (h : Shows P (.text opening :: .text s :: st) ts) :
    Shows P (.text (opening ++ s) :: st) ts := by
  unfold Shows at h ⊢
  rw [chars_text, chars_text] at h
  rwa [chars_text, String.toList_append, List.append_assoc]

theorem renders_clause {e : Expr} {p : Predicate} (h : Shows Apart (.text s :: st) us)
    (hbreaks : Breaks (.text s :: st)) (hclause : Clause e us p) :
    Renders Factor (.text (expr embedded e ++ s) :: st) p := by
  obtain ⟨ts, hts, hterm⟩ := prints_expr e
  have hboth : Shows Apart (.text (expr embedded e) :: .text s :: st) (ts ++ us) :=
    (shows_text hts).append h hbreaks
  exact ⟨_, shows_joined_text hboth, .basic (.clause hterm hclause)⟩

theorem prints_sign (op : CompareOp) :
    Prints Anything (" " ++ (op.symbol ++ " ")).toList [] [sign op.symbol] := by
  cases op <;> exact prints_literal (by decide) (by simp)

theorem breaks_blank (text : String) (st : Statement) : Breaks (.text (" " ++ text) :: st) :=
  breaks_text (String.toList_append ..) (by decide) st

variable (g : Bool) (e : Expr)

theorem renders_constant (b : Bool) :
    Renders Factor ((Condition.constant b).statement embedded g) (.literal b) := by
  have hprints : Prints Apart (embedded.truth b).toList [] [number b.toNat] := by
    cases b <;> exact prints_fixed (by decide) (by simp)
  exact ⟨_, shows_text hprints, .basic (.constant b)⟩

theorem renders_compare (op : CompareOp) (v : Value) :
    Renders Factor ((Condition.compare e op v).statement embedded g)
      (.compare e op (.value v)) := by
  have hshows : Shows Apart [.text (" " ++ (op.symbol ++ " ")), .bind v]
      [sign op.symbol, value v] :=
    (shows_text (prints_sign op)).append (shows_bind v).weaken fun _ _ => trivial
  rw [Condition.statement, String.append_assoc, String.append_assoc]
  exact renders_clause hshows (breaks_blank _ _) (.compare op v)

theorem renders_compareFields (op : CompareOp) (right : Expr) :
    Renders Factor ((Condition.compareFields e op right).statement embedded g)
      (.compareFields e op right) := by
  obtain ⟨ts, hts, hterm⟩ := prints_expr right
  have hshows : Shows Apart [.text (" " ++ (op.symbol ++ " ")), .text (expr embedded right)]
      (sign op.symbol :: ts) :=
    (shows_text (prints_sign op)).append (shows_text hts) fun _ _ => trivial
  have hjoined := shows_joined_text hshows
  rw [String.append_assoc, String.append_assoc] at hjoined
  rw [Condition.statement, String.append_assoc, String.append_assoc, String.append_assoc]
  exact renders_clause hjoined (breaks_blank _ _) (.compareFields op hterm)

theorem renders_among (first : Value) (rest : List Value) :
    Renders Factor ((Condition.among e first rest).statement embedded g)
      (.among e (first :: rest)) := by
  have hvalue : ∀ v, Renders Bound [.bind v] v := fun v => ⟨_, (shows_bind v).weaken, rfl⟩
  obtain ⟨ts, hts, hvalues⟩ := renders_commas hvalue (List.cons_ne_nil first rest)
  have hopening : Prints Anything " IN (".toList [] [word "IN", mark '('] :=
    prints_literal (by decide) (by simp)
  exact renders_clause (shows_enclosed hts hopening) (breaks_text rfl (by decide) _)
    (.among hvalues)

theorem renders_isNull :
    Renders Factor ((Condition.isNull e).statement embedded g) (.isNull e) := by
  have hshows : Shows Apart [.text " IS NULL"] [word "IS", word "NULL"] :=
    shows_text (prints_fixed (by decide) (by simp))
  exact renders_clause hshows (breaks_text rfl (by decide) _) .isNull

theorem renders_isNotNull :
    Renders Factor ((Condition.isNotNull e).statement embedded g) (.isNotNull e) := by
  have hshows : Shows Apart [.text " IS NOT NULL"] [word "IS", word "NOT", word "NULL"] :=
    shows_text (prints_fixed (by decide) (by simp))
  exact renders_clause hshows (breaks_text rfl (by decide) _) .isNotNull

theorem renders_like (pattern : String) (escape : Option Char) :
    Renders Factor ((Condition.like e pattern escape).statement embedded g)
      (.like e pattern escape) := by
  have hword : Prints Anything " LIKE ".toList [] [word "LIKE"] :=
    prints_literal (by decide) (by simp)
  have hlike : Shows Anything [.text " LIKE ", .bind (.text pattern)]
      [word "LIKE", value (.text pattern)] :=
    (shows_text hword).append (shows_bind _) fun _ _ => trivial
  cases escape with
  | none => exact renders_clause hlike.weaken (breaks_text rfl (by decide) _) (.like pattern)
  | some c =>
      have hword : Prints Anything " ESCAPE ".toList [] [word "ESCAPE"] :=
        prints_literal (by decide) (by simp)
      have hescape : Shows Apart [.text " ESCAPE ", .bind (.text (String.ofList [c]))]
          [word "ESCAPE", value (.text (String.ofList [c]))] :=
        (shows_text hword).append (shows_bind _).weaken fun _ _ => trivial
      have hboth := hlike.append hescape fun _ _ => trivial
      exact renders_clause hboth (breaks_text rfl (by decide) _) (.likeEscape pattern c)

theorem renders_negation {ps : List Predicate} (h : Renders (Phrase .disjunction) st ps) :
    Renders Factor (.text "NOT (" :: st ++ [.text ")"]) (.negate (.anyOf ps)) := by
  obtain ⟨ts, hts, hphrase⟩ := h
  have hopening : Prints Anything "NOT (".toList [] [word "NOT", mark '('] :=
    prints_literal (by decide) (by simp)
  exact ⟨_, shows_enclosed hts hopening, .negation (.group hphrase)⟩

theorem renders_group {ps : List Predicate} (h : Renders (Phrase .disjunction) st ps) :
    Renders Factor (grouped true st) (.anyOf ps) := by
  obtain ⟨ts, hts, hphrase⟩ := h
  have hopening : Prints Anything "(".toList [] [mark '('] :=
    prints_literal (by decide) (by simp)
  exact ⟨_, shows_enclosed hts hopening, .group hphrase⟩

theorem Renders.imp {α β : Type} {R : List Token → α → Prop} {R' : List Token → β → Prop} {x : α}
    {y : β} (h : Renders R st x) (himp : ∀ ts, R ts x → R' ts y) : Renders R' st y := by
  obtain ⟨ts, hts, hx⟩ := h
  exact ⟨ts, hts, himp ts hx⟩

theorem disjunction_of_factor {p : Predicate} (h : Factor ts p) : Phrase .disjunction ts [p] :=
  .disjunct (.conjunct h)

theorem conjunction_of_separated {ps : List Predicate} (h : Separated (word "AND") Factor ts ps) :
    Phrase .conjunction ts ps := by
  induction h with
  | one item => exact .conjunct item
  | more item rest ih => exact .and item ih

theorem disjunction_of_separated {ps : List Predicate} (h : Separated (word "OR") Factor ts ps) :
    Phrase .disjunction ts ps := by
  induction h with
  | one item => exact disjunction_of_factor item
  | more item rest ih => exact .or (.conjunct item) ih

section

variable {sts : List Statement} {ps : List Predicate} (h : List.Forall₂ (Renders Factor) sts ps)
  (hne : ps ≠ [])

include h hne

theorem renders_conjunction : Renders (Phrase .disjunction) (joined " AND " sts) [.allOf ps] := by
  have hseparator : Prints Anything " AND ".toList [] [word "AND"] :=
    prints_literal (by decide) (by simp)
  have hjoined := renders_joined hseparator (breaks_text rfl (by decide)) h hne
  exact hjoined.imp fun ts hts => .disjunct (conjunction_of_separated hts)

theorem renders_disjunction : Renders (Phrase .disjunction) (joined " OR " sts) ps := by
  have hseparator : Prints Anything " OR ".toList [] [word "OR"] :=
    prints_literal (by decide) (by simp)
  have hjoined := renders_joined hseparator (breaks_text rfl (by decide)) h hne
  exact hjoined.imp fun ts hts => disjunction_of_separated hts

end

namespace Condition

mutual

def tree : Condition → Predicate
  | constant b => .literal b
  | compare e op v => .compare e op (.value v)
  | compareFields left op right => .compareFields left op right
  | among e first rest => .among e (first :: rest)
  | isNull e => .isNull e
  | isNotNull e => .isNotNull e
  | like e pattern escape => .like e pattern escape
  | negate inner => .negate inner.tree
  | all first rest => .allOf (first.tree :: trees rest)
  | any first rest => .anyOf (first.tree :: trees rest)

def trees : List Condition → List Predicate
  | [] => []
  | c :: rest => c.tree :: trees rest

end

mutual

theorem renders_factor : ∀ c : Condition, Renders Factor (c.statement embedded true) c.tree
  | constant b => renders_constant true b
  | compare e op v => renders_compare true e op v
  | compareFields left op right => renders_compareFields true left op right
  | among e first rest => renders_among true e first rest
  | isNull e => renders_isNull true e
  | isNotNull e => renders_isNotNull true e
  | like e pattern escape => renders_like true e pattern escape
  | negate inner => by
      obtain ⟨ps, hps, hinner⟩ := renders_whole inner
      rw [tree, ← hps]
      exact renders_negation hinner
  | all first rest =>
      renders_group (renders_conjunction (.cons (renders_factor first) (renders_factors rest))
        (List.cons_ne_nil _ _))
  | any first rest =>
      renders_group (renders_disjunction (.cons (renders_factor first) (renders_factors rest))
        (List.cons_ne_nil _ _))

theorem renders_whole : ∀ c : Condition,
    ∃ ps, Predicate.anyOf ps = c.tree ∧ Renders (Phrase .disjunction)
      (c.statement embedded false) ps
  | constant b => ⟨_, rfl, (renders_constant false b).imp fun _ => disjunction_of_factor⟩
  | compare e op v => ⟨_, rfl, (renders_compare false e op v).imp fun _ => disjunction_of_factor⟩
  | compareFields left op right =>
      ⟨_, rfl, (renders_compareFields false left op right).imp fun _ => disjunction_of_factor⟩
  | among e first rest =>
      ⟨_, rfl, (renders_among false e first rest).imp fun _ => disjunction_of_factor⟩
  | isNull e => ⟨_, rfl, (renders_isNull false e).imp fun _ => disjunction_of_factor⟩
  | isNotNull e => ⟨_, rfl, (renders_isNotNull false e).imp fun _ => disjunction_of_factor⟩
  | like e pattern escape =>
      ⟨_, rfl, (renders_like false e pattern escape).imp fun _ => disjunction_of_factor⟩
  | negate inner => by
      obtain ⟨ps, hps, hinner⟩ := renders_whole inner
      rw [tree, ← hps]
      exact ⟨_, rfl, (renders_negation hinner).imp fun _ => disjunction_of_factor⟩
  | all first rest =>
      ⟨_, rfl, renders_conjunction (.cons (renders_factor first) (renders_factors rest))
        (List.cons_ne_nil _ _)⟩
  | any first rest =>
      ⟨_, rfl, renders_disjunction (.cons (renders_factor first) (renders_factors rest))
        (List.cons_ne_nil _ _)⟩

theorem renders_factors : ∀ cs : List Condition,
    List.Forall₂ (Renders Factor) (statements embedded cs) (trees cs)
  | [] => .nil
  | c :: rest => .cons (renders_factor c) (renders_factors rest)

end

end Condition

end RecordQuery.Sql
