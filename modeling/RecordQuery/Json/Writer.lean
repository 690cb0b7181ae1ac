import RecordQuery.Json
import RecordQuery.Text.Numeral

namespace RecordQuery.Json

open RecordQuery.Text

def hexDigit (n : Nat) : Char := Nat.digitChar (n % 16)

def escaped (c : Char) : List Char :=
  if c = '"' then ['\\', '"']
  else if c = '\\' then ['\\', '\\']
  else if c = '\n' then ['\\', 'n']
  else if c = '\t' then ['\\', 't']
  else if c = '\r' then ['\\', 'r']
  else if c.toNat = 8 then ['\\', 'b']
  else if c.toNat = 12 then ['\\', 'f']
  else if c.toNat < 32 then ['\\', 'u', '0', '0', hexDigit (c.toNat / 16), hexDigit c.toNat]
  else [c]

def writeText (s : String) : List Char := '"' :: s.toList.flatMap escaped ++ ['"']

mutual

def write : Json → List Char
  | null => "null".toList
  | bool true => "true".toList
  | bool false => "false".toList
  | int n => writeInt n
  | text s => writeText s
  | list items => '[' :: writeAll items ++ [']']
  | object members => '\x7b' :: writeMembers members ++ ['\x7d']
  | otherNumber => "null".toList
  | unreadable => "null".toList

def writeAll : List Json → List Char
  | [] => []
  | [j] => j.write
  | j :: rest => j.write ++ ',' :: writeAll rest

def writeMembers : List (String × Json) → List Char
  | [] => []
  | [(key, j)] => writeText key ++ ':' :: j.write
  | (key, j) :: rest => writeText key ++ ':' :: j.write ++ ',' :: writeMembers rest

end

def display (j : Json) : String := String.ofList j.write

end RecordQuery.Json
