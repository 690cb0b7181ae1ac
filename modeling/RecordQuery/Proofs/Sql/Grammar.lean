import RecordQuery.Proofs.Sql.Token
import RecordQuery.Query

namespace RecordQuery.Sql.Grammar

open RecordQuery.Sql.Token

inductive Term : List Token → Expr → Prop
  | column (n : String) : Term [name n] (.field n)
  | lower {ts : List Token} {e : Expr} (inner : Term ts e) :
      Term (word "LOWER" :: mark '(' :: (ts ++ [mark ')'])) (.lower e)

def Bound (ts : List Token) (v : Value) : Prop := ts = [value v]

inductive Separated {α : Type} (separator : Token) (Item : List Token → α → Prop) :
    List Token → List α → Prop
  | one {ts : List Token} {x : α} (item : Item ts x) : Separated separator Item ts [x]
  | more {ts us : List Token} {x : α} {xs : List α} (item : Item ts x)
      (rest : Separated separator Item us xs) :
      Separated separator Item (ts ++ separator :: us) (x :: xs)

inductive Clause (e : Expr) : List Token → Predicate → Prop
  | compare (op : CompareOp) (v : Value) :
      Clause e [sign op.symbol, value v] (.compare e op (.value v))
  | compareFields (op : CompareOp) {ts : List Token} {other : Expr} (right : Term ts other) :
      Clause e (sign op.symbol :: ts) (.compareFields e op other)
  | among {ts : List Token} {vs : List Value} (values : Separated (mark ',') Bound ts vs) :
      Clause e (word "IN" :: mark '(' :: (ts ++ [mark ')'])) (.among e vs)
  | isNull : Clause e [word "IS", word "NULL"] (.isNull e)
  | isNotNull : Clause e [word "IS", word "NOT", word "NULL"] (.isNotNull e)
  | like (pattern : String) : Clause e [word "LIKE", value (.text pattern)] (.like e pattern none)
  | likeEscape (pattern : String) (c : Char) :
      Clause e [word "LIKE", value (.text pattern), word "ESCAPE",
        value (.text (String.ofList [c]))]
        (.like e pattern (some c))

inductive Basic : List Token → Predicate → Prop
  | constant (b : Bool) : Basic [number b.toNat] (.literal b)
  | clause {ts us : List Token} {e : Expr} {p : Predicate} (left : Term ts e)
      (right : Clause e us p) : Basic (ts ++ us) p

inductive Level where
  | factor
  | conjunction
  | disjunction

/-- NOT binds tighter than AND, and AND tighter than OR. The items of a junction are listed, and a
factor is a single one. -/
inductive Phrase : Level → List Token → List Predicate → Prop
  | basic {ts : List Token} {p : Predicate} (h : Basic ts p) : Phrase .factor ts [p]
  | negation {ts : List Token} {p : Predicate} (inner : Phrase .factor ts [p]) :
      Phrase .factor (word "NOT" :: ts) [.negate p]
  | group {ts : List Token} {ps : List Predicate} (inner : Phrase .disjunction ts ps) :
      Phrase .factor (mark '(' :: (ts ++ [mark ')'])) [.anyOf ps]
  | conjunct {ts : List Token} {ps : List Predicate} (factor : Phrase .factor ts ps) :
      Phrase .conjunction ts ps
  | and {ts us : List Token} {ps qs : List Predicate} (first : Phrase .factor ts ps)
      (rest : Phrase .conjunction us qs) : Phrase .conjunction (ts ++ word "AND" :: us) (ps ++ qs)
  | disjunct {ts : List Token} {ps : List Predicate} (inner : Phrase .conjunction ts ps) :
      Phrase .disjunction ts [.allOf ps]
  | or {ts us : List Token} {ps qs : List Predicate} (first : Phrase .conjunction ts ps)
      (rest : Phrase .disjunction us qs) :
      Phrase .disjunction (ts ++ word "OR" :: us) (.allOf ps :: qs)

inductive Target : List Token → Projection × Bool → Prop
  | rows : Target [mark '*'] (.rows, false)
  | distinctRows : Target [word "DISTINCT", mark '*'] (.rows, true)
  | column (n : String) : Target [name n] (.column n, false)
  | distinctColumn (n : String) : Target [word "DISTINCT", name n] (.column n, true)
  | count : Target [word "COUNT", mark '(', mark '*', mark ')'] (.count, false)
  | distinctCount :
      Target [word "COUNT", mark '(', word "DISTINCT", name Row.idColumn, mark ')'] (.count, true)

inductive Optional {α : Type} (lead : Token) (default : α) (Body : List Token → α → Prop) :
    List Token → α → Prop
  | absent : Optional lead default Body [] default
  | present {ts : List Token} {x : α} (body : Body ts x) :
      Optional lead default Body (lead :: ts) x

inductive Whole : List Token → Predicate → Prop
  | of {ts : List Token} {ps : List Predicate} (phrase : Phrase .disjunction ts ps) :
      Whole ts (.anyOf ps)

def Restriction : List Token → Predicate → Prop := Optional (word "WHERE") (.literal true) Whole

inductive Ordered : List Token → Order → Prop
  | by {ts : List Token} {e : Expr} (term : Term ts e) (direction : Direction) :
      Ordered (ts ++ [word direction.symbol]) ⟨e, direction⟩

inductive Orders : List Token → List Order → Prop
  | by {ts : List Token} {orders : List Order} (terms : Separated (mark ',') Ordered ts orders) :
      Orders (word "BY" :: ts) orders

def Sorting : List Token → List Order → Prop := Optional (word "ORDER") [] Orders

inductive Limit : List Token → Option Nat → Prop
  | some (n : Nat) : Limit [number n] (some n)
  | none (n : Nat) : Limit [mark '-', number (n + 1)] none

inductive Page : List Token → Option Nat × Option Nat → Prop
  | limit {ts : List Token} {limit : Option Nat} (bound : Limit ts limit) : Page ts (none, limit)
  | offset {ts : List Token} {limit : Option Nat} (bound : Limit ts limit) (first : Nat) :
      Page (ts ++ [word "OFFSET", number first]) (some first, limit)

def Window : List Token → Option Nat × Option Nat → Prop :=
  Optional (word "LIMIT") (none, none) Page

structure Reading where
  table : String
  projection : Projection
  distinct : Bool
  condition : Predicate
  orders : List Order
  first : Option Nat
  limit : Option Nat

inductive Selection : List Token → Reading → Prop
  | select {ts us vs ws : List Token} {projection : Projection} {distinct : Bool}
      {condition : Predicate} {orders : List Order} {first limit : Option Nat}
      (target : Target ts (projection, distinct)) (table : String)
      (restriction : Restriction us condition) (sorting : Sorting vs orders)
      (window : Window ws (first, limit)) :
      Selection (word "SELECT" :: (ts ++ word "FROM" :: name table :: (us ++ (vs ++ ws))))
        ⟨table, projection, distinct, condition, orders, first, limit⟩

def Ends (more : List Token) (rest : List Token) : Prop := ∀ t ∈ rest.head?, t ∉ more

def Sure {α : Type} (more : List Token) (R : List Token → α → Prop) : Prop :=
  ∀ ⦃ts us rest rest' : List Token⦄ ⦃x y : α⦄, R ts x → R us y → ts ++ rest = us ++ rest' →
    Ends more rest → Ends more rest' → ts = us ∧ x = y

theorem ends_cons {more : List Token} {t : Token} (h : t ∉ more) (rest : List Token) :
    Ends more (t :: rest) := by
  intro u hu
  rwa [← Option.some.inj hu]

theorem ends_nil {more : List Token} : Ends more [] := by
  intro t ht
  cases ht

theorem ends_none (rest : List Token) : Ends [] rest := fun _ _ => List.not_mem_nil

theorem Ends.mono {more fewer rest : List Token} (h : Ends more rest) (hsub : fewer ⊆ more) :
    Ends fewer rest := fun t ht hmem => h t ht (hsub hmem)

theorem Ends.not_more {more ts rest tail : List Token} {t : Token} (h : Ends more rest)
    (heq : ts ++ rest = ts ++ t :: tail) (ht : t ∈ more) : False := by
  rw [List.append_cancel_left heq] at h
  exact h t rfl ht

section

variable {α : Type} {more : List Token} {R : List Token → α → Prop} {ts us rest rest' : List Token}
  {x y : α}

theorem Sure.rest_eq (hR : Sure more R) (h : R ts x) (h' : R us y) (heq : ts ++ rest = us ++ rest')
    (hrest : Ends more rest) (hrest' : Ends more rest') : ts = us ∧ x = y ∧ rest = rest' := by
  obtain ⟨rfl, rfl⟩ := hR h h' heq hrest hrest'
  exact ⟨rfl, rfl, List.append_cancel_left heq⟩

end

theorem symbol_inj {op op' : CompareOp} (h : op.symbol = op'.symbol) : op = op' := by
  cases op <;> cases op' <;> simp_all [CompareOp.symbol]

theorem direction_inj {d d' : Direction} (h : d.symbol = d'.symbol) : d = d' := by
  cases d <;> cases d' <;> simp_all [Direction.symbol]

theorem sure_term : Sure [] Term := by
  intro ts us rest rest' x y h h' heq hrest hrest'
  induction h generalizing us rest rest' y with
  | column n =>
      cases h' with
      | column m =>
          obtain ⟨hname, -⟩ := List.cons.inj heq
          obtain rfl := Token.name.inj hname
          exact ⟨rfl, rfl⟩
      | lower inner => cases heq
  | lower inner ih =>
      cases h' with
      | column m => cases heq
      | lower inner' =>
          simp only [List.cons_append, List.append_assoc, List.cons.injEq, true_and] at heq
          obtain ⟨rfl, rfl⟩ := ih inner' heq (ends_none _) (ends_none _)
          exact ⟨rfl, rfl⟩

theorem sure_bound : Sure [] Bound := by
  rintro ts us rest rest' v w rfl rfl heq - -
  obtain rfl := Token.value.inj (List.cons.inj heq).1
  exact ⟨rfl, rfl⟩

theorem sure_separated {α : Type} {Item : List Token → α → Prop} (hitem : Sure [] Item)
    (separator : Token) : Sure [separator] (Separated separator Item) := by
  intro ts us rest rest' xs ys h h' heq hrest hrest'
  induction h generalizing us rest rest' ys with
  | one item =>
      cases h' with
      | one item' =>
          obtain ⟨rfl, rfl⟩ := hitem item item' heq (ends_none _) (ends_none _)
          exact ⟨rfl, rfl⟩
      | more item' tail' =>
          rw [List.append_assoc] at heq
          obtain ⟨rfl, -⟩ := hitem item item' heq (ends_none _) (ends_none _)
          exact (hrest.not_more heq (List.mem_singleton_self _)).elim
  | more item tail ih =>
      rw [List.append_assoc] at heq
      cases h' with
      | one item' =>
          obtain ⟨rfl, -⟩ := hitem item item' heq (ends_none _) (ends_none _)
          exact (hrest'.not_more heq.symm (List.mem_singleton_self _)).elim
      | more item' tail' =>
          rw [List.append_assoc] at heq
          obtain ⟨rfl, rfl⟩ := hitem item item' heq (ends_none _) (ends_none _)
          have htails := (List.cons.inj (List.append_cancel_left heq)).2
          obtain ⟨rfl, rfl⟩ := ih tail' htails hrest hrest'
          exact ⟨rfl, rfl⟩

theorem term_ne_value {ts rest rest' : List Token} {e : Expr} {v : Value} (h : Term ts e) :
    ts ++ rest ≠ value v :: rest' := by
  intro heq
  cases h <;> cases heq

theorem sure_clause (e : Expr) : Sure [word "ESCAPE"] (Clause e) := by
  intro ts us rest rest' p q h h' heq hrest hrest'
  cases h with
  | compare op v =>
      cases h' with
      | compare op' v' =>
          obtain ⟨hsign, htail⟩ := List.cons.inj heq
          obtain ⟨hvalue, -⟩ := List.cons.inj htail
          obtain rfl := symbol_inj (Token.sign.inj hsign)
          obtain rfl := Token.value.inj hvalue
          exact ⟨rfl, rfl⟩
      | compareFields op' right => exact absurd (List.cons.inj heq).2.symm (term_ne_value right)
      | _ => simp at heq
  | compareFields op right =>
      cases h' with
      | compare op' v => exact absurd (List.cons.inj heq).2 (term_ne_value right)
      | compareFields op' right' =>
          obtain ⟨hsign, hterms⟩ := List.cons.inj heq
          obtain rfl := symbol_inj (Token.sign.inj hsign)
          obtain ⟨rfl, rfl⟩ := sure_term right right' hterms (ends_none _) (ends_none _)
          exact ⟨rfl, rfl⟩
      | _ => simp at heq
  | among values =>
      cases h' with
      | among values' =>
          simp only [List.cons_append, List.append_assoc, List.cons.injEq, true_and] at heq
          obtain ⟨rfl, rfl⟩ :=
            sure_separated sure_bound _ values values' heq (ends_cons (by simp) _)
            (ends_cons (by simp) _)
          exact ⟨rfl, rfl⟩
      | _ => simp at heq
  | isNull =>
      cases h' with
      | isNull => exact ⟨rfl, rfl⟩
      | _ => simp at heq
  | isNotNull =>
      cases h' with
      | isNotNull => exact ⟨rfl, rfl⟩
      | _ => simp at heq
  | like pattern =>
      cases h' with
      | like pattern' =>
          cases heq
          exact ⟨rfl, rfl⟩
      | likeEscape pattern' c' =>
          cases heq
          exact absurd (List.mem_singleton_self _) (hrest _ rfl)
      | _ => simp at heq
  | likeEscape pattern c =>
      cases h' with
      | like pattern' =>
          cases heq
          exact absurd (List.mem_singleton_self _) (hrest' _ rfl)
      | likeEscape pattern' c' =>
          simp only [List.cons_append, List.nil_append, List.cons.injEq, value.injEq,
            Value.text.injEq,
            String.ofList_inj, true_and] at heq
          obtain ⟨rfl, ⟨rfl, -⟩, -⟩ := heq
          exact ⟨rfl, rfl⟩
      | _ => simp at heq

theorem term_ne_number {ts rest rest' : List Token} {e : Expr} {n : Nat} (h : Term ts e) :
    ts ++ rest ≠ number n :: rest' := by
  intro heq
  cases h <;> cases heq

theorem sure_basic : Sure [word "ESCAPE"] Basic := by
  intro ts us rest rest' p q h h' heq hrest hrest'
  cases h with
  | constant b =>
      cases h' with
      | constant b' =>
          obtain ⟨hnumber, -⟩ := List.cons.inj heq
          cases b <;> cases b' <;> first | exact ⟨rfl, rfl⟩ | cases hnumber
      | clause left' right' =>
          rw [List.append_assoc] at heq
          exact absurd heq.symm (term_ne_number left')
  | clause left right =>
      rw [List.append_assoc] at heq
      cases h' with
      | constant b' => exact absurd heq (term_ne_number left)
      | clause left' right' =>
          rw [List.append_assoc] at heq
          obtain ⟨rfl, rfl, hclauses⟩ :=
            sure_term.rest_eq left left' heq (ends_none _) (ends_none _)
          obtain ⟨rfl, rfl⟩ := sure_clause _ right right' hclauses hrest hrest'
          exact ⟨rfl, rfl⟩

def Level.more : Level → List Token
  | .factor => [word "ESCAPE"]
  | .conjunction => [word "ESCAPE", word "AND"]
  | .disjunction => [word "ESCAPE", word "AND", word "OR"]

theorem basic_ne {ts rest rest' : List Token} {p : Predicate} {t : Token} (h : Basic ts p)
    (ht : t = word "NOT" ∨ t = mark '(') : ts ++ rest ≠ t :: rest' := by
  intro heq
  rcases h with b | ⟨left, right⟩
  · rcases ht with rfl | rfl <;> cases heq
  · rcases ht with rfl | rfl <;> cases left <;> simp at heq

theorem Level.more_factor : Level.factor.more ⊆ Level.conjunction.more := by simp [more]

theorem Level.more_conjunction : Level.conjunction.more ⊆ Level.disjunction.more := by simp [more]

theorem sure_phrase (level : Level) : Sure level.more (Phrase level) := by
  intro ts us rest rest' ps qs h h' heq hrest hrest'
  -- The second reading is of the same level, so a rule competes with those of its own level only.
  induction h generalizing us rest rest' qs with
  | basic h =>
      cases h' with
      | basic h' =>
          obtain ⟨rfl, rfl⟩ := sure_basic h h' heq hrest hrest'
          exact ⟨rfl, rfl⟩
      | negation inner' => exact absurd heq (basic_ne h (.inl rfl))
      | group inner' => exact absurd heq (basic_ne h (.inr rfl))
  | negation inner ih =>
      cases h' with
      | basic h' => exact absurd heq.symm (basic_ne h' (.inl rfl))
      | negation inner' =>
          obtain ⟨rfl, hps⟩ := ih inner' (List.cons.inj heq).2 hrest hrest'
          obtain rfl := List.singleton_inj.mp hps
          exact ⟨rfl, rfl⟩
      | group inner' => cases heq
  | group inner ih =>
      cases h' with
      | basic h' => exact absurd heq.symm (basic_ne h' (.inr rfl))
      | negation inner' => cases heq
      | group inner' =>
          simp only [List.cons_append, List.append_assoc, List.cons.injEq, true_and] at heq
          obtain ⟨rfl, rfl⟩ := ih inner' heq (ends_cons (by simp [Level.more]) _)
            (ends_cons (by simp [Level.more]) _)
          exact ⟨rfl, rfl⟩
  | conjunct factor ih =>
      cases h' with
      | conjunct factor' =>
          exact ih factor' heq (hrest.mono Level.more_factor) (hrest'.mono Level.more_factor)
      | and first' tail' =>
          rw [List.append_assoc] at heq
          obtain ⟨rfl, -⟩ := ih first' heq (hrest.mono Level.more_factor)
            (ends_cons (by simp [Level.more]) _)
          exact (hrest.not_more heq (by simp [Level.more])).elim
  | and first tail ihfirst ihtail =>
      rw [List.append_assoc] at heq
      cases h' with
      | conjunct factor' =>
          obtain ⟨rfl, -⟩ := ihfirst factor' heq (ends_cons (by simp [Level.more]) _)
            (hrest'.mono Level.more_factor)
          exact (hrest'.not_more heq.symm (by simp [Level.more])).elim
      | and first' tail' =>
          rw [List.append_assoc] at heq
          obtain ⟨rfl, rfl⟩ := ihfirst first' heq (ends_cons (by simp [Level.more]) _)
            (ends_cons (by simp [Level.more]) _)
          have htails := (List.cons.inj (List.append_cancel_left heq)).2
          obtain ⟨rfl, rfl⟩ := ihtail tail' htails hrest hrest'
          exact ⟨rfl, rfl⟩
  | disjunct inner ih =>
      cases h' with
      | disjunct inner' =>
          obtain ⟨rfl, rfl⟩ := ih inner' heq (hrest.mono Level.more_conjunction)
            (hrest'.mono Level.more_conjunction)
          exact ⟨rfl, rfl⟩
      | or first' tail' =>
          rw [List.append_assoc] at heq
          obtain ⟨rfl, -⟩ := ih first' heq (hrest.mono Level.more_conjunction)
            (ends_cons (by simp [Level.more]) _)
          exact (hrest.not_more heq (by simp [Level.more])).elim
  | or first tail ihfirst ihtail =>
      rw [List.append_assoc] at heq
      cases h' with
      | disjunct inner' =>
          obtain ⟨rfl, -⟩ := ihfirst inner' heq (ends_cons (by simp [Level.more]) _)
            (hrest'.mono Level.more_conjunction)
          exact (hrest'.not_more heq.symm (by simp [Level.more])).elim
      | or first' tail' =>
          rw [List.append_assoc] at heq
          obtain ⟨rfl, rfl⟩ := ihfirst first' heq (ends_cons (by simp [Level.more]) _)
            (ends_cons (by simp [Level.more]) _)
          have htails := (List.cons.inj (List.append_cancel_left heq)).2
          obtain ⟨rfl, rfl⟩ := ihtail tail' htails hrest hrest'
          exact ⟨rfl, rfl⟩

theorem sure_target : Sure [] Target := by
  intro ts us rest rest' x y h h' heq _ _
  cases h <;> cases h' <;> simp_all

section

variable {α : Type} {lead : Token} {default : α} {more : List Token} {Body : List Token → α → Prop}

theorem sure_optional (hbody : Sure more Body) :
    Sure (lead :: more) (Optional lead default Body) := by
  intro ts us rest rest' x y h h' heq hrest hrest'
  have hsub : more ⊆ lead :: more := List.subset_cons_self ..
  cases h with
  | absent =>
      cases h' with
      | absent => exact ⟨rfl, rfl⟩
      | present body' => exact (hrest.not_more heq (List.mem_cons_self ..)).elim
  | present body =>
      cases h' with
      | absent => exact (hrest'.not_more heq.symm (List.mem_cons_self ..)).elim
      | present body' =>
          obtain ⟨rfl, rfl⟩ := hbody body body' (List.cons.inj heq).2 (hrest.mono hsub)
            (hrest'.mono hsub)
          exact ⟨rfl, rfl⟩

theorem ends_optional {ts rest : List Token} {x : α} (h : Optional lead default Body ts x)
    (hlead : lead ∉ more) (hrest : Ends more rest) : Ends more (ts ++ rest) := by
  cases h with
  | absent => exact hrest
  | present body => exact ends_cons hlead _

end

theorem sure_whole : Sure Level.disjunction.more Whole := by
  rintro ts us rest rest' p q ⟨phrase⟩ ⟨phrase'⟩ heq hrest hrest'
  obtain ⟨rfl, rfl⟩ := sure_phrase .disjunction phrase phrase' heq hrest hrest'
  exact ⟨rfl, rfl⟩

theorem sure_ordered : Sure [] Ordered := by
  rintro ts us rest rest' x y ⟨term, d⟩ ⟨term', d'⟩ heq - -
  rw [List.append_assoc, List.append_assoc] at heq
  obtain ⟨rfl, rfl⟩ := sure_term term term' heq (ends_none _) (ends_none _)
  have hdirection := Token.word.inj (List.cons.inj (List.append_cancel_left heq)).1
  obtain rfl := direction_inj hdirection
  exact ⟨rfl, rfl⟩

theorem sure_orders : Sure [mark ','] Orders := by
  rintro ts us rest rest' xs ys ⟨terms⟩ ⟨terms'⟩ heq hrest hrest'
  obtain ⟨rfl, rfl⟩ :=
    sure_separated sure_ordered _ terms terms' (List.cons.inj heq).2 hrest hrest'
  exact ⟨rfl, rfl⟩

theorem sure_limit : Sure [] Limit := by
  intro ts us rest rest' x y h h' heq _ _
  cases h <;> cases h' <;> simp_all

theorem sure_page : Sure [word "OFFSET"] Page := by
  intro ts us rest rest' x y h h' heq hrest hrest'
  cases h with
  | limit bound =>
      cases h' with
      | limit bound' =>
          obtain ⟨rfl, rfl⟩ := sure_limit bound bound' heq (ends_none _) (ends_none _)
          exact ⟨rfl, rfl⟩
      | offset bound' first' =>
          rw [List.append_assoc] at heq
          obtain ⟨rfl, -⟩ := sure_limit bound bound' heq (ends_none _) (ends_none _)
          exact (hrest.not_more heq (List.mem_singleton_self _)).elim
  | offset bound first =>
      rw [List.append_assoc] at heq
      cases h' with
      | limit bound' =>
          obtain ⟨rfl, -⟩ := sure_limit bound bound' heq (ends_none _) (ends_none _)
          exact (hrest'.not_more heq.symm (List.mem_singleton_self _)).elim
      | offset bound' first' =>
          rw [List.append_assoc] at heq
          obtain ⟨rfl, rfl⟩ := sure_limit bound bound' heq (ends_none _) (ends_none _)
          have htails := (List.cons.inj (List.append_cancel_left heq)).2
          obtain rfl := Token.number.inj (List.cons.inj htails).1
          exact ⟨rfl, rfl⟩

theorem selection_inj {ts us : List Token} {r r' : Reading} (h : Selection ts r)
    (h' : Selection us r') (heq : ts = us) : r = r' := by
  obtain ⟨target, table, restriction, sorting, window⟩ := h
  obtain ⟨target', table', restriction', sorting', window'⟩ := h'
  obtain ⟨-, htarget, hfrom⟩ := sure_target.rest_eq target target' (List.cons.inj heq).2
    (ends_none _) (ends_none _)
  obtain ⟨rfl, rfl⟩ := Prod.mk.inj htarget
  obtain ⟨hname, hclauses⟩ := List.cons.inj (List.cons.inj hfrom).2
  obtain rfl := Token.name.inj hname
  have hend : ∀ {more ts : List Token} {x : Option Nat × Option Nat}, Window ts x →
      word "LIMIT" ∉ more → Ends more ts := by
    intro more ts x hwindow hmore
    have hends : Ends more (ts ++ []) := ends_optional hwindow hmore ends_nil
    rwa [List.append_nil] at hends
  obtain ⟨-, rfl, htails⟩ := (sure_optional sure_whole).rest_eq restriction restriction' hclauses
    (ends_optional sorting (by simp [Level.more]) (hend window (by simp [Level.more])))
    (ends_optional sorting' (by simp [Level.more]) (hend window' (by simp [Level.more])))
  obtain ⟨-, rfl, hwindows⟩ := (sure_optional sure_orders).rest_eq sorting sorting' htails
    (hend window (by simp)) (hend window' (by simp))
  have hwindows := congrArg (· ++ []) hwindows
  obtain ⟨-, hpage⟩ := sure_optional sure_page window window' hwindows ends_nil ends_nil
  obtain ⟨rfl, rfl⟩ := Prod.mk.inj hpage
  rfl

end RecordQuery.Sql.Grammar
