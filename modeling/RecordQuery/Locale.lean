import RecordQuery.FormatError
import RecordQuery.Text.Blank
import RecordQuery.Text.Case

namespace RecordQuery

open RecordQuery.Text

structure Locale where
  language : String
  country : Option String
  deriving DecidableEq, Repr

namespace Locale

def of (language : List Char) (country : Option (List Char)) : Locale where
  language := String.ofList (lowerAscii language)
  country :=
    match country with
    | none => none
    | some [] => none
    | some c => some (String.ofList (upperAscii c))

def english : Locale := of "en".toList none

instance : Inhabited Locale := ⟨english⟩

def tag (l : Locale) : String :=
  match l.country with
  | none => l.language
  | some country => l.language ++ "-" ++ country

def isLetter (c : Char) : Bool := ('a' ≤ c && c ≤ 'z') || ('A' ≤ c && c ≤ 'Z')

def isSuffixMark (c : Char) : Bool := c == '.' || c == '@'

def isSeparator (c : Char) : Bool := c == '-' || c == '_'

def isNeutral (base : List Char) : Bool :=
  lowerAscii base == ['c'] || lowerAscii base == ['p', 'o', 's', 'i', 'x']

def countryIn : List Char → Option (List Char)
  | [] => none
  | _ :: rest => some (rest.takeWhile (fun c => !isSeparator c))

def readBase? (base : List Char) : Option Locale :=
  let language := base.takeWhile (fun c => !isSeparator c)
  let country := countryIn (base.dropWhile (fun c => !isSeparator c))
  if language.isEmpty || !language.all isLetter then none
  else if country.any (fun c => !c.all (fun x => isLetter x || x.isDigit)) then none
  else some (of language country)

def readChars (s : List Char) : Except FormatError Locale :=
  let base := (trim s).takeWhile (fun c => !isSuffixMark c)
  if isNeutral base then .ok english
  else
    match readBase? base with
    | some l => .ok l
    | none => .error (.invalidLocale (String.ofList (trim s)))

def read (s : String) : Except FormatError Locale := readChars s.toList

def environmentNames : List String := ["LC_ALL", "LC_MESSAGES", "LANG"]

def systemDefault (environment : String → Option String) : Locale :=
  match (environmentNames.filterMap environment).find? (fun v => !allBlank v.toList) with
  | none => english
  | some v =>
      match read v with
      | .ok l => l
      | .error _ => english

def isTurkic (l : Locale) : Bool := l.language == "tr" || l.language == "az"

def lowerChars (l : Locale) (s : List Char) : List Char :=
  if l.isTurkic then lowerTurkic s else Text.lower s

def lower (l : Locale) (s : String) : String := String.ofList (l.lowerChars s.toList)

end Locale

end RecordQuery
