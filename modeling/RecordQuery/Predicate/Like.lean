namespace RecordQuery

inductive LikeToken where
  | anyRun
  | anyOne
  | exactly (c : Char)
  deriving DecidableEq, Repr

namespace Like

def plainToken (c : Char) : LikeToken :=
  if c = '%' then .anyRun else if c = '_' then .anyOne else .exactly c

/-- The escape character makes the next character an ordinary one, also where it is a wildcard
itself. A pattern that ends in it has no reading. -/
def tokens? (escape : Option Char) : List Char → Option (List LikeToken)
  | [] => some []
  | [c] => if escape = some c then none else some [plainToken c]
  | c :: d :: rest =>
      if escape = some c then (tokens? escape rest).map (.exactly d :: ·)
      else (tokens? escape (d :: rest)).map (plainToken c :: ·)

def atEnd : List Char → List Bool
  | [] => [true]
  | _ :: s => false :: atEnd s

def before (p : Char → Bool) : List Char → List Bool → List Bool
  | c :: s, _ :: marks => (p c && marks.headD false) :: before p s marks
  | _, _ => [false]

def above : List Bool → List Bool
  | [] => []
  | b :: marks =>
      match above marks with
      | [] => [b]
      | c :: rest => (b || c) :: c :: rest

def marked (same : Char → Char → Bool) (s : List Char) : List LikeToken → List Bool
  | [] => atEnd s
  | .anyRun :: ts => above (marked same s ts)
  | .anyOne :: ts => before (fun _ => true) s (marked same s ts)
  | .exactly c :: ts => before (same c) s (marked same s ts)

def fits (same : Char → Char → Bool) (ts : List LikeToken) (s : List Char) : Bool :=
  (marked same s ts).headD false

def exact (c d : Char) : Bool := c == d

theorem fits_nil (same : Char → Char → Bool) (s : List Char) :
    fits same [] s = s.isEmpty := by
  cases s <;> rfl

end Like

end RecordQuery
