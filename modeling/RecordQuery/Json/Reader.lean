import RecordQuery.Json.Token

namespace RecordQuery.Json

def ofMembers (members : List (Option String × Json)) : Json :=
  match members.mapM (fun m => m.1.map (·, m.2)) with
  | some members => .object members
  | none => .unreadable

def key? : Token → Option (Option String)
  | .atom (.text key) => some (some key)
  | .brokenText => some none
  | _ => none

mutual

def valueIn : Nat → List Token → Option (Json × List Token)
  | _ + 1, .atom j :: rest => some (j, rest)
  | _ + 1, .brokenText :: rest => some (.unreadable, rest)
  | _ + 1, .mark '[' :: .mark ']' :: rest => some (.list [], rest)
  | n + 1, .mark '[' :: rest => (itemsIn n rest).map fun r => (.list r.1, r.2)
  | _ + 1, .mark '\x7b' :: .mark '\x7d' :: rest => some (.object [], rest)
  | n + 1, .mark '\x7b' :: rest => (membersIn n rest).map fun r => (ofMembers r.1, r.2)
  | _, _ => none

def itemsIn : Nat → List Token → Option (List Json × List Token)
  | 0, _ => none
  | n + 1, ts =>
      match valueIn n ts with
      | some (j, .mark ',' :: rest) => (itemsIn n rest).map fun r => (j :: r.1, r.2)
      | some (j, .mark ']' :: rest) => some ([j], rest)
      | _ => none

def membersIn : Nat → List Token → Option (List (Option String × Json) × List Token)
  | n + 1, t :: .mark ':' :: ts =>
      match key? t, valueIn n ts with
      | some key, some (j, .mark ',' :: rest) =>
          (membersIn n rest).map fun r => ((key, j) :: r.1, r.2)
      | some key, some (j, .mark '\x7d' :: rest) => some ([(key, j)], rest)
      | _, _ => none
  | _, _ => none

end

def ofTokens? (ts : List Token) : Option Json :=
  match valueIn (2 * ts.length + 1) ts with
  | some (j, []) => some j
  | _ => none

def read? (s : String) : Option Json := (tokens? s.toList).bind ofTokens?

end RecordQuery.Json
