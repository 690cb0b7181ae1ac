namespace RecordQuery

def settle {α : Type} (less : α → α → Bool) (x : α) : List α → List α
  | [] => [x]
  | y :: rest => if less x y then y :: settle less x rest else x :: y :: rest

def sortBy {α : Type} (less : α → α → Bool) (l : List α) : List α :=
  (l.foldl (fun sorted x => settle less x sorted) []).reverse

end RecordQuery
