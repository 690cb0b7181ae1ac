import RecordQuery.Database.Table
import RecordQuery.Sql.Condition

namespace RecordQuery.Database

open RecordQuery.Sql

variable (l : Layout)

def cellOf (entry : Entry) : Expr → Cell
  | .field name => ((l.place? name).map entry.cell).getD (.text name)
  | .lower inner => (cellOf entry inner).lower

def Place.affinity : Place → Affinity
  | .number => .integer
  | .column c => c.affinity

def affinityOf : Expr → Affinity
  | .field name => ((l.place? name).map Place.affinity).getD .any
  | .lower _ => .any

def sameLetter (a b : Char) : Bool := a.toLower == b.toLower

def seen (c : Char) : Char := if c = '\uFFFE' ∨ c = '\uFFFF' then '\uFFFD' else c

def likeTruth (c : Cell) (pattern : String) (escape : Option Char) : Truth :=
  if c.isNull then .unknown
  else
    match Like.tokens? (escape.map seen) ((untilZero pattern.toList).map seen) with
    | none => .no
    | some ts => .ofBool (Like.fits sameLetter ts ((untilZero c.chars).map seen))

variable (entry : Entry)

mutual

def truth : Condition → Truth
  | .constant b => .ofBool b
  | .compare e op v =>
      .ofOrdering op.holds ((affinityOf l e).compare? (cellOf l entry e) (.ofValue v))
  | .compareFields left op right =>
      .ofOrdering op.holds (((affinityOf l left).join (affinityOf l right)).compare?
        (cellOf l entry left) (cellOf l entry right))
  | .among e first rest =>
      .among Cell.isNull (affinityOf l e).compare? (cellOf l entry e)
        ((first :: rest).map Cell.ofValue)
  | .isNull e => .ofBool (cellOf l entry e).isNull
  | .isNotNull e => .ofBool !(cellOf l entry e).isNull
  | .like e pattern escape => likeTruth (cellOf l entry e) pattern escape
  | .negate inner => (truth inner).negate
  | .all first rest => (truth first).both (truthAll rest)
  | .any first rest => (truth first).either (truthAny rest)

def truthAll : List Condition → Truth
  | [] => .yes
  | c :: rest => (truth c).both (truthAll rest)

def truthAny : List Condition → Truth
  | [] => .no
  | c :: rest => (truth c).either (truthAny rest)

end

theorem truthAll_of_isNever {conditions : List Condition}
    (h : conditions.any Condition.isNever = true) : truthAll l entry conditions = .no := by
  induction conditions with
  | nil => cases h
  | cons c rest ih =>
      rw [List.any_cons, Bool.or_eq_true] at h
      rw [truthAll]
      rcases h with h | h
      · cases c <;> simp_all [Condition.isNever, truth, Truth.ofBool, Truth.both]
      · rw [ih h, Truth.both_comm]
        rfl

theorem truth_conjunction (first : Condition) (rest : List Condition) :
    truth l entry (Condition.conjunction first rest) = truthAll l entry (first :: rest) := by
  unfold Condition.conjunction
  split
  · rename_i h
    obtain rfl := List.isEmpty_iff.mp h
    simp only [truthAll]
    cases truth l entry first <;> rfl
  · split
    · rename_i h
      rw [truthAll_of_isNever l entry h]
      rfl
    · rfl

theorem truth_disjunction (first : Condition) (rest : List Condition) :
    truth l entry (Condition.disjunction first rest) = truthAny l entry (first :: rest) := by
  unfold Condition.disjunction
  split
  · rename_i h
    obtain rfl := List.isEmpty_iff.mp h
    simp only [truthAny]
    cases truth l entry first <;> rfl
  · rfl

mutual

theorem truth_reduced : ∀ c : Condition, truth l entry c.reduced = truth l entry c
  | .constant _ => rfl
  | .compare .. => rfl
  | .compareFields .. => rfl
  | .among .. => rfl
  | .isNull _ => rfl
  | .isNotNull _ => rfl
  | .like .. => rfl
  | .negate inner => by rw [Condition.reduced, truth, truth, truth_reduced inner]
  | .all first rest => by
      rw [Condition.reduced, truth_conjunction, truthAll, truth, truth_reduced first,
        truthAll_reduced rest]
  | .any first rest => by
      rw [Condition.reduced, truth_disjunction, truthAny, truth, truth_reduced first,
        truthAny_reduced rest]

theorem truthAll_reduced : ∀ conditions : List Condition,
    truthAll l entry (Condition.reducedAll conditions) = truthAll l entry conditions
  | [] => rfl
  | c :: rest => by
      rw [Condition.reducedAll, truthAll, truthAll, truth_reduced c, truthAll_reduced rest]

theorem truthAny_reduced : ∀ conditions : List Condition,
    truthAny l entry (Condition.reducedAll conditions) = truthAny l entry conditions
  | [] => rfl
  | c :: rest => by
      rw [Condition.reducedAll, truthAny, truthAny, truth_reduced c, truthAny_reduced rest]

end

def satisfies (conditions : List Condition) : Bool := truthAll l entry conditions == .yes

def patternLimit : Nat := 50000

/-- What a pattern is refused for when an entry comes to it, also if the entry has nothing there. -/
def likeFault? (pattern : String) (escape : Option Char) : Option DatabaseFault :=
  if patternLimit < pattern.utf8ByteSize then some .patternTooLong
  else if escape = some '\x00' then some .noEscape
  else none

/-- Whether a search goes on after a truth as if the condition held. Where the condition is asked
for that is what unknown does not do, and where it is to be ruled out it does. -/
def passes (asked : Bool) : Truth → Bool
  | .yes => true
  | .no => false
  | .unknown => !asked

mutual

def fault? (asked : Bool) : Condition → Option DatabaseFault
  | .like _ pattern escape => likeFault? pattern escape
  | .negate inner => fault? (!asked) inner
  | .all first rest => (fault? asked first).or
      (if passes asked (truth l entry first) then faultAll? asked rest else none)
  | .any first rest => (fault? asked first).or
      (if passes asked (truth l entry first) then none else faultAny? asked rest)
  | _ => none

def faultAll? (asked : Bool) : List Condition → Option DatabaseFault
  | [] => none
  | c :: rest => (fault? asked c).or
      (if passes asked (truth l entry c) then faultAll? asked rest else none)

def faultAny? (asked : Bool) : List Condition → Option DatabaseFault
  | [] => none
  | c :: rest => (fault? asked c).or
      (if passes asked (truth l entry c) then none else faultAny? asked rest)

end

def Table.fault? (t : Table) (conditions : List Condition) : Option DatabaseFault :=
  t.entries.findSome? fun e =>
    Database.fault? t.layout e true (Condition.allOf conditions).reduced

end RecordQuery.Database
