import RecordQuery.FormatError

namespace RecordQuery

variable {α : Type}

structure Bounds (α : Type) where
  start : Option α := none
  stop : Option α := none
  least : Option α := none
  most : Option α := none
  deriving DecidableEq, Repr

namespace Bounds

def unbounded : Bounds α := {}

def between (start stop : α) : Bounds α := { start := some start, stop := some stop }

def atLeast (start : α) : Bounds α := { start := some start }

def atMost (stop : α) : Bounds α := { stop := some stop }

section

variable [Ord α]

def larger (a b : α) : α := if compare a b = .gt then a else b

def smaller (a b : α) : α := if compare a b = .gt then b else a

def tighter (choose : α → α → α) : Option α → Option α → Option α
  | some a, some b => some (choose a b)
  | some a, none => some a
  | none, b => b

def lower (r : Bounds α) : Option α := tighter larger r.start r.least

def upper (r : Bounds α) : Option α := tighter smaller r.stop r.most

def isUnbounded (r : Bounds α) : Bool := r.lower.isNone && r.upper.isNone

def isSingle [DecidableEq α] (r : Bounds α) : Bool :=
  match r.lower, r.upper with
  | some a, some b => a = b
  | _, _ => false

def reaches (a : α) : Option α → Bool
  | none => true
  | some low => compare a low != .lt

def staysUnder (a : α) : Option α → Bool
  | none => true
  | some high => compare a high != .gt

def contains (r : Bounds α) (a : α) : Bool := reaches a r.lower && staysUnder a r.upper

end

end Bounds

end RecordQuery
