namespace RecordQuery

inductive Truth where
  | no
  | unknown
  | yes
  deriving DecidableEq, Repr

namespace Truth

def ofBool : Bool → Truth
  | true => yes
  | false => no

def ofOption : Option Bool → Truth
  | none => unknown
  | some b => ofBool b

def toOption : Truth → Option Bool
  | no => some false
  | unknown => none
  | yes => some true

def negate : Truth → Truth
  | no => yes
  | unknown => unknown
  | yes => no

def both : Truth → Truth → Truth
  | no, _ => no
  | _, no => no
  | yes, t => t
  | t, yes => t
  | unknown, unknown => unknown

def either : Truth → Truth → Truth
  | yes, _ => yes
  | _, yes => yes
  | no, t => t
  | t, no => t
  | unknown, unknown => unknown

def ofOrdering (test : Ordering → Bool) (o : Option Ordering) : Truth := ofOption (o.map test)

def among {α : Type} (isNull : α → Bool) (compare? : α → α → Option Ordering) (a : α)
    (items : List α) : Truth :=
  if isNull a then unknown
  else if items.any (fun b => compare? a b == some .eq) then yes
  else if items.any isNull then unknown
  else no

theorem both_comm (a b : Truth) : a.both b = b.both a := by cases a <;> cases b <;> rfl

theorem both_assoc (a b c : Truth) : (a.both b).both c = a.both (b.both c) := by
  cases a <;> cases b <;> cases c <;> rfl

theorem either_comm (a b : Truth) : a.either b = b.either a := by cases a <;> cases b <;> rfl

theorem either_assoc (a b c : Truth) : (a.either b).either c = a.either (b.either c) := by
  cases a <;> cases b <;> cases c <;> rfl

theorem negate_both (a b : Truth) : (a.both b).negate = a.negate.either b.negate := by
  cases a <;> cases b <;> rfl

theorem negate_either (a b : Truth) : (a.either b).negate = a.negate.both b.negate := by
  cases a <;> cases b <;> rfl

end Truth

end RecordQuery
