import RecordQuery.Predicate.Evaluate
import RecordQuery.Proofs.Time.StoredOrder

namespace RecordQuery

open RecordQuery.Time

namespace Value

def Akin : Value → Value → Prop
  | null, _ => True
  | _, null => True
  | bool _, bool _ => True
  | bool _, int _ => True
  | int _, bool _ => True
  | int _, int _ => True
  | text _, text _ => True
  | time t, time u => t.Storable ∧ u.Storable
  | _, _ => False

def Textual : Value → Prop
  | null => True
  | text _ => True
  | _ => False

variable {u v : Value}

theorem storageForm_of_textual (h : v.Textual) : v.storageForm = v := by
  cases v with
  | null => rfl
  | text s => rfl
  | bool b => exact h.elim
  | int n => exact h.elim
  | time t => exact h.elim

theorem isNull_storageForm (v : Value) : v.storageForm.isNull = v.isNull := by
  cases v <;> rfl

theorem compare?_storageForm (h : u.Akin v) :
    u.storageForm.compare? v.storageForm = u.compare? v := by
  cases u with
  | null => cases v <;> rfl
  | bool a =>
      cases v with
      | null => rfl
      | bool b => rfl
      | int m => rfl
      | text s => exact h.elim
      | time t => exact h.elim
  | int n =>
      cases v with
      | null => rfl
      | bool b => rfl
      | int m => rfl
      | text s => exact h.elim
      | time t => exact h.elim
  | text s =>
      cases v with
      | null => rfl
      | text s' => rfl
      | bool b => exact h.elim
      | int m => exact h.elim
      | time t => exact h.elim
  | time t =>
      cases v with
      | null => rfl
      | time t' => exact congrArg some (Instant.compare_stored h.1 h.2)
      | bool b => exact h.elim
      | int m => exact h.elim
      | text s => exact h.elim

end Value

def Row.stored (row : Row) : Row := row.map Value.storageForm

def Parameters.stored (params : Parameters) : Parameters := params.map Value.storageForm

def Operand.stored : Operand → Operand
  | value v => value v.storageForm
  | param name => param name

namespace Predicate

mutual

def stored : Predicate → Predicate
  | compare expr op operand => compare expr op operand.stored
  | among expr values => among expr (values.map Value.storageForm)
  | negate inner => negate (stored inner)
  | all items => all (storedAll items)
  | any items => any (storedAll items)
  | p => p

def storedAll : List Predicate → List Predicate
  | [] => []
  | p :: rest => stored p :: storedAll rest

end

end Predicate

section

variable (params : Parameters) (row : Row)

def Expr.Foldable : Expr → Prop
  | field _ => True
  | lower inner => (Row.value row inner.column).Textual

namespace Predicate

mutual

def Uniform : Predicate → Prop
  | literal _ => True
  | compare expr _ operand =>
      expr.Foldable row ∧ ∀ v, operand.value? params = .ok v → (expr.value row).Akin v
  | compareFields left _ right =>
      left.Foldable row ∧ right.Foldable row ∧ (left.value row).Akin (right.value row)
  | among expr values => expr.Foldable row ∧ ∀ v ∈ values, (expr.value row).Akin v
  | isNull expr => expr.Foldable row
  | isNotNull expr => expr.Foldable row
  | like expr _ _ => (Row.value row expr.column).Textual
  | negate inner => Uniform inner
  | all items => UniformAll items
  | any items => UniformAll items

def UniformAll : List Predicate → Prop
  | [] => True
  | p :: rest => Uniform p ∧ UniformAll rest

end

end Predicate

end

variable {params : Parameters} {row : Row}

theorem Row.value_stored (row : Row) (column : String) :
    row.stored.value column = (row.value column).storageForm := by
  simp only [Row.value, Row.stored, Keyed.get?_map]
  cases row.get? column <;> rfl

theorem Operand.value?_stored (operand : Operand) :
    operand.stored.value? params.stored = (operand.value? params).map Value.storageForm := by
  cases operand with
  | value v => rfl
  | param name =>
      simp only [stored, value?, Parameters.stored, Keyed.get?_map]
      cases params.get? name <;> rfl

namespace Expr

variable {expr : Expr}

theorem textual_value (h : (Row.value row expr.column).Textual) : (expr.value row).Textual := by
  induction expr with
  | field name => exact h
  | lower inner ih =>
      have hinner := ih h
      rw [value]
      cases hv : inner.value row with
      | null => trivial
      | text s => trivial
      | bool b => exact (hv ▸ hinner : (Value.bool b).Textual).elim
      | int n => exact (hv ▸ hinner : (Value.int n).Textual).elim
      | time t => exact (hv ▸ hinner : (Value.time t).Textual).elim

theorem foldable_of_textual (h : (Row.value row expr.column).Textual) : expr.Foldable row := by
  cases expr with
  | field name => trivial
  | lower inner => exact h

theorem value_stored (h : expr.Foldable row) :
    expr.value row.stored = (expr.value row).storageForm := by
  induction expr with
  | field name => exact Row.value_stored row name
  | lower inner ih =>
      have hinner : (inner.value row).Textual := textual_value h
      have hself : inner.value row.stored = inner.value row :=
        (ih (foldable_of_textual h)).trans (Value.storageForm_of_textual hinner)
      have hlower : ((lower inner).value row).Textual := textual_value h
      rw [Value.storageForm_of_textual hlower, value, value, hself]

end Expr

namespace PatternTable

mutual

theorem collect_stored (table : PatternTable) :
    ∀ p : Predicate, collect table p.stored = collect table p
  | .literal _ => rfl
  | .compare .. => rfl
  | .compareFields .. => rfl
  | .among .. => rfl
  | .isNull _ => rfl
  | .isNotNull _ => rfl
  | .like .. => rfl
  | .negate inner => collect_stored table inner
  | .all items => collectAll_stored table items
  | .any items => collectAll_stored table items

theorem collectAll_stored (table : PatternTable) :
    ∀ items : List Predicate, collectAll table (Predicate.storedAll items) = collectAll table items
  | [] => rfl
  | p :: rest => by
      rw [Predicate.storedAll, collectAll, collectAll, collect_stored table p]
      cases collect table p with
      | error e => rfl
      | ok after => exact collectAll_stored after rest

end

end PatternTable

namespace Predicate

theorem test_stored {u v : Value} (h : u.Akin v) (op : CompareOp) :
    op.test u.storageForm v.storageForm = op.test u v := by
  rw [CompareOp.test, CompareOp.test, Value.compare?_storageForm h]

theorem any_match_stored {u : Value} {values : List Value} (h : ∀ v ∈ values, u.Akin v) :
    (values.map Value.storageForm).any (fun v => u.storageForm.compare? v == some .eq) =
      values.any (fun v => u.compare? v == some .eq) := by
  induction values with
  | nil => rfl
  | cons v rest ih =>
      have hrest := ih fun w hw => h w (List.mem_cons_of_mem _ hw)
      rw [List.map_cons, List.any_cons, List.any_cons, hrest,
        Value.compare?_storageForm (h v (List.mem_cons_self ..))]

theorem among_stored {u : Value} {values : List Value} (h : ∀ v ∈ values, u.Akin v) :
    Truth.among Value.isNull Value.compare? u.storageForm (values.map Value.storageForm) =
      Truth.among Value.isNull Value.compare? u values := by
  have hnull : (values.map Value.storageForm).any Value.isNull = values.any Value.isNull := by
    rw [List.any_map]
    exact congrArg values.any (funext Value.isNull_storageForm)
  rw [Truth.among, Truth.among, Value.isNull_storageForm, any_match_stored h, hnull]

variable (patterns : PatternTable)

mutual

theorem evaluateWith_stored : ∀ p : Predicate, p.Uniform params row →
    p.stored.evaluateWith patterns params.stored row.stored = p.evaluateWith patterns params row
  | literal _, _ => rfl
  | compare expr op operand, h => by
      simp only [stored, evaluateWith, Operand.value?_stored, Expr.value_stored h.1]
      cases hv : operand.value? params with
      | error e => rfl
      | ok v => exact congrArg Except.ok (test_stored (h.2 v hv) op)
  | compareFields left op right, h => by
      simp only [stored, evaluateWith, Expr.value_stored h.1, Expr.value_stored h.2.1,
        test_stored h.2.2]
  | among expr values, h => by
      simp only [stored, evaluateWith, Expr.value_stored h.1, among_stored h.2]
  | isNull expr, h => by
      simp only [stored, evaluateWith, Expr.value_stored h, Value.isNull_storageForm]
  | isNotNull expr, h => by
      simp only [stored, evaluateWith, Expr.value_stored h, Value.isNull_storageForm]
  | like expr pattern escape, h => by
      have hself : expr.value row.stored = expr.value row :=
        (Expr.value_stored (Expr.foldable_of_textual h)).trans
          (Value.storageForm_of_textual (Expr.textual_value h))
      simp only [stored, evaluateWith, likeTruth, hself]
  | negate inner, h => by
      simp only [stored, evaluateWith, evaluateWith_stored inner h]
  | all items, h => evaluateAll_stored items h
  | any items, h => evaluateAny_stored items h

theorem evaluateAll_stored : ∀ items : List Predicate, UniformAll params row items →
    evaluateAll patterns params.stored row.stored (storedAll items) =
      evaluateAll patterns params row items
  | [], _ => rfl
  | p :: rest, h => by
      simp only [storedAll, evaluateAll, evaluateWith_stored p h.1, evaluateAll_stored rest h.2]

theorem evaluateAny_stored : ∀ items : List Predicate, UniformAll params row items →
    evaluateAny patterns params.stored row.stored (storedAll items) =
      evaluateAny patterns params row items
  | [], _ => rfl
  | p :: rest, h => by
      simp only [storedAll, evaluateAny, evaluateWith_stored p h.1, evaluateAny_stored rest h.2]

end

theorem evaluate_stored {p : Predicate} (h : p.Uniform params row) :
    p.stored.evaluate params.stored row.stored = p.evaluate params row := by
  rw [evaluate, evaluate, PatternTable.collect_stored]
  cases PatternTable.collect [] p with
  | error e => rfl
  | ok patterns => exact evaluateWith_stored patterns p h

section

def leapHalf : Instant :=
  ⟨⟨2016, 12, 31, Nat.succ_pos _, by decide, by decide, by decide⟩, 86399, 1500000000, by decide,
    by decide, by decide⟩

def leapRow : Row :=
  .ofList [("active", .bool true), ("at", .time leapHalf), ("name", .text "Ann")]

def leapParams : Parameters := .ofList [("until", .time (leapHalf.advanceMillis 500))]

def outsideLeap : Predicate :=
  negate (any [compare (.field "at") .ge (.param "until"),
    among (.field "active") [.bool false, .null],
    all [like (.lower (.field "name")) "b%" none, compareFields (.field "at") .lt (.field "gone")]])

theorem evaluate_stored_leap :
    outsideLeap.Uniform leapParams leapRow ∧
      outsideLeap.stored.evaluate leapParams.stored leapRow.stored =
        outsideLeap.evaluate leapParams leapRow := by
  have hat : (Expr.field "at").value leapRow = .time leapHalf := by decide +kernel
  have hactive : (Expr.field "active").value leapRow = .bool true := by decide +kernel
  have hname : (Row.value leapRow "name").Textual := by
    rw [show Row.value leapRow "name" = .text "Ann" by decide +kernel]
    trivial
  have hgone : (Expr.field "gone").value leapRow = .null := by decide +kernel
  have huntil : (Operand.param "until").value? leapParams =
      .ok (.time (leapHalf.advanceMillis 500)) := by decide +kernel
  have h : outsideLeap.Uniform leapParams leapRow := by
    refine ⟨⟨trivial, ?_⟩, ⟨trivial, ?_⟩, ⟨?_, ⟨trivial, trivial, ?_⟩, trivial⟩, trivial⟩
    · intro v hv
      obtain rfl := Except.ok.inj (huntil.symm.trans hv)
      rw [hat]
      exact ⟨by decide +kernel, by decide +kernel⟩
    · intro v hv
      rw [hactive]
      rcases List.mem_cons.mp hv with rfl | hv
      · trivial
      · obtain rfl := List.mem_singleton.mp hv
        trivial
    · exact hname
    · rw [hat, hgone]
      trivial
  exact ⟨h, evaluate_stored h⟩

def wholeMicro : Instant :=
  { Instant.epoch with nano := 1000, nano_lt := by decide, leap_last := by decide }

def halfMicro : Instant :=
  { Instant.epoch with nano := 1500, nano_lt := by decide, leap_last := by decide }

theorem evaluate_finer_operand :
    wholeMicro.Storable ∧
      (equal (.field "at") (.time halfMicro)).evaluate ∅ (.ofList [("at", .time wholeMicro)]) =
        .ok .no ∧
      (equal (.field "at") (.time halfMicro)).stored.evaluate (Parameters.stored ∅)
        (Row.stored (.ofList [("at", .time wholeMicro)])) = .ok .yes := by
  refine ⟨?_, ?_, ?_⟩
  all_goals decide +kernel

end

end Predicate

end RecordQuery
