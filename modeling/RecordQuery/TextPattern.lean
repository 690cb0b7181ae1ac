import RecordQuery.Locale
import RecordQuery.Settings

namespace RecordQuery.TextPattern

open RecordQuery.Text

def collapsed (s : List Char) : List Char := [' '].intercalate (words s)

def replaced (c : Char) (image s : List Char) : List Char :=
  s.flatMap fun d => if d = c then image else [d]

def escapedTerms (escape : Char) (s : List Char) : List Char :=
  replaced '_' [escape, '_'] (replaced '%' [escape, '%']
    (replaced escape [escape, escape] (collapsed s)))

def prepared (escape : Char) (s : List Char) : List Char :=
  replaced ' ' ['%'] (collapsed (escapedTerms escape (trim s)))

def build (shape : List Char → List Char) (locale : Locale) (escape : Char) (text : String) :
    Except ArgumentFault String :=
  if allBlank text.toList then .ok ""
  else
    match Settings.checkEscape escape with
    | .error fault => .error fault
    | .ok () => .ok (String.ofList (shape (prepared escape (locale.lowerChars text.toList))))

def contains : Locale → Char → String → Except ArgumentFault String :=
  build fun p => '%' :: p ++ ['%']

def startsWith : Locale → Char → String → Except ArgumentFault String :=
  build fun p => p ++ ['%']

def endsWith : Locale → Char → String → Except ArgumentFault String :=
  build fun p => '%' :: p

def folded? (locale : Locale) (s : String) : Option String :=
  if s.isEmpty then none else some (locale.lower s)

end RecordQuery.TextPattern
