import RecordQuery.FormatError
import RecordQuery.Json.Reader
import RecordQuery.Json.Record
import RecordQuery.Json.Writer
import RecordQuery.Text.Blank

namespace RecordQuery

open RecordQuery.Text

inductive Matching where
  | exact
  | startsWith
  | endsWith
  | like
  | custom
  deriving DecidableEq, Repr

namespace Matching

def all : List Matching := [exact, startsWith, endsWith, like, custom]

def name : Matching → String
  | exact => "EXACT"
  | startsWith => "STARTS_WITH"
  | endsWith => "ENDS_WITH"
  | like => "LIKE"
  | custom => "CUSTOM"

def ofName (name : String) : Except FormatError Matching :=
  match all.find? (·.name == name) with
  | some m => .ok m
  | none => .error (.unknownMatching name)

def ofName? (name : String) : Option Matching := all.find? (·.name == name)

theorem ofName_name (m : Matching) : ofName m.name = .ok m := by cases m <;> rfl

end Matching

structure TextFilter where
  value : Option String
  matching : Matching
  deriving DecidableEq, Repr

namespace TextFilter

def isBlank (f : TextFilter) : Bool := f.value.all (fun v => allBlank v.toList)

def write (f : TextFilter) : List Char :=
  f.matching.name.toList ++ ':' ::
    (match f.value with
      | none => []
      | some v => ' ' :: v.toList)

def display (f : TextFilter) : String := String.ofList f.write

def readChars (s : List Char) : Except FormatError TextFilter :=
  match s.dropWhile (· != ':') with
  | [] => .error (.invalidTextFilter (String.ofList s))
  | _ :: rest =>
      match Matching.ofName (String.ofList (s.takeWhile (· != ':'))) with
      | .error e => .error e
      | .ok m =>
          match rest with
          | [] => .ok ⟨none, m⟩
          | ' ' :: v => .ok ⟨some (String.ofList v), m⟩
          | _ => .error (.invalidTextFilter (String.ofList s))

def read (s : String) : Except FormatError TextFilter := readChars s.toList

def ofOptionText : Option String → Json
  | none => .null
  | some v => .text v

def sortedJson (f : TextFilter) : Json :=
  .object [("matching", .text f.matching.name), ("value", ofOptionText f.value)]

def json (f : TextFilter) : Json :=
  .object [("value", ofOptionText f.value), ("matching", .text f.matching.name)]

def matchingOf? : Json → Option Matching
  | .text name => Matching.ofName? name
  | .object [(name, .null)] => Matching.ofName? name
  | _ => none

def ofJson? : Json → Option TextFilter
  | .list [] => none
  | j => do
      let members ← j.members? ["value", "matching"]
      let value ← members.optional "value" Json.asText
      let matching ← members.withDefault "matching" .exact matchingOf?
      return ⟨value, matching⟩

def readJson? (s : String) : Option TextFilter := (Json.read? s).bind ofJson?

end TextFilter

end RecordQuery
