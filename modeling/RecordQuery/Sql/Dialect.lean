import RecordQuery.Text.Numeral
import RecordQuery.Value

namespace RecordQuery.Sql

open RecordQuery.Text

structure Dialect where
  quote : String → String
  placeholder : Nat → String
  truth : Bool → String
  window : Option Nat → Option Nat → Option String
  nextInSequence : String

def quoted (name : String) : String :=
  String.ofList ('"' :: name.toList.flatMap (fun c => if c = '"' then ['"', '"'] else [c]) ++ ['"'])

def limitOffset : Option Nat → Option Nat → Option String
  | none, none => none
  | some limit, none => some ("LIMIT " ++ displayNat limit)
  | some limit, some offset => some ("LIMIT " ++ displayNat limit ++
      " OFFSET " ++ displayNat offset)
  | none, some offset => some ("LIMIT -1 OFFSET " ++ displayNat offset)

def sequenceTable : String := "_sequences"

def embedded : Dialect where
  quote := quoted
  placeholder := fun _ => "?"
  truth := fun b => if b then "1" else "0"
  window := limitOffset
  nextInSequence := "INSERT INTO " ++ quoted sequenceTable ++
    " (name, value) VALUES (?, 1) ON CONFLICT(name) DO UPDATE SET value = value + 1" ++
    " RETURNING value"

end RecordQuery.Sql
