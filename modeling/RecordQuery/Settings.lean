import RecordQuery.Json.Reader
import RecordQuery.Json.Record
import RecordQuery.Json.Writer
import RecordQuery.Text.Blank
import RecordQuery.Text.Case
import RecordQuery.Text.Numeral

namespace RecordQuery

open RecordQuery.Text

inductive ArgumentFault where
  | emptyListLimit
  | wildcardEscape (c : Char)
  | blankEscape
  | foldingEscape (c : Char)
  | blankSequence
  deriving DecidableEq, Repr

def ArgumentFault.message : ArgumentFault → String
  | emptyListLimit => "max_in_elements must be greater than zero"
  | wildcardEscape c => s!"Escape character '{c}' is a LIKE wildcard"
  | blankEscape => "Escape character must not be whitespace"
  | foldingEscape c => s!"Escape character '{c}' changes under case folding"
  | blankSequence => "sequence name cannot be blank"

structure Settings where
  listLimit : Nat := 100
  escape : Char := '\\'
  deriving DecidableEq, Repr

namespace Settings

def limitVariable : String := "CRITERIA_MAX_IN_ELEMENTS"

def escapeVariable : String := "CRITERIA_ESCAPE_CHAR"

def maxLimit : Int := 18446744073709551615

def readLimit? (s : String) : Option Nat :=
  match readInt 0 maxLimit (trim s.toList) with
  | .ok n => some n.toNat
  | .error _ => none

def readEscape? (s : String) : Option Char :=
  match s.toList with
  | [c] => some c
  | _ => none

def ofEnvironment (environment : String → Option String) : Settings where
  listLimit := ((environment limitVariable).bind readLimit?).getD 100
  escape := ((environment escapeVariable).bind readEscape?).getD '\\'

def checkEscape (c : Char) : Except ArgumentFault Unit :=
  if c = '%' ∨ c = '_' then .error (.wildcardEscape c)
  else if Text.isBlank c then .error .blankEscape
  else if lowerOf c ≠ [c] then .error (.foldingEscape c)
  else .ok ()

def check (s : Settings) : Except ArgumentFault Unit :=
  if s.listLimit = 0 then .error .emptyListLimit else checkEscape s.escape

def asChar (j : Json) : Option Char := j.asText.bind readEscape?

def names : List String := ["maxInElements", "escapeChar"]

def ofMembers? (members : Json.Members) : Option Settings := do
  let listLimit ← members.withDefault "maxInElements" 100 Json.asNat64
  let escape ← members.withDefault "escapeChar" '\\' asChar
  return ⟨listLimit, escape⟩

def ofJson? (j : Json) : Option Settings := (j.members? names).bind ofMembers?

def readJson? (s : String) : Option Settings := (Json.read? s).bind ofJson?

def json (s : Settings) : Json :=
  .object [("maxInElements", .int s.listLimit), ("escapeChar", .text (String.ofList [s.escape]))]

end Settings

end RecordQuery
