import RecordQuery.Json
import RecordQuery.Text.Numeral

namespace RecordQuery.Json

open RecordQuery.Text

inductive Token where
  | mark (c : Char)
  | atom (value : Json)
  | brokenText
  deriving Repr

def isSpace (c : Char) : Bool := c == ' ' || c == '\t' || c == '\n' || c == '\r'

def isMark (c : Char) : Bool :=
  c == '[' || c == ']' || c == '\x7b' || c == '\x7d' || c == ':' || c == ','

def hexValue? (c : Char) : Option Nat :=
  if c.isDigit then some (digitValue c)
  else if 'a' ≤ c ∧ c ≤ 'f' then some (c.toNat - 'a'.toNat + 10)
  else if 'A' ≤ c ∧ c ≤ 'F' then some (c.toNat - 'A'.toNat + 10)
  else none

def hexUnit? (a b c d : Char) : Option Nat := do
  let a ← hexValue? a
  let b ← hexValue? b
  let c ← hexValue? c
  let d ← hexValue? d
  return ((a * 16 + b) * 16 + c) * 16 + d

def shortEscape? : Char → Option Char
  | '"' => some '"'
  | '\\' => some '\\'
  | '/' => some '/'
  | 'b' => some (Char.ofNat 8)
  | 'f' => some (Char.ofNat 12)
  | 'n' => some '\n'
  | 'r' => some '\r'
  | 't' => some '\t'
  | _ => none

inductive Part where
  | char (c : Char)
  | unit (n : Nat)
  deriving DecidableEq, Repr

def quotedParts : List Char → Option (List Part × List Char)
  | [] => none
  | '"' :: rest => some ([], rest)
  | '\\' :: 'u' :: a :: b :: c :: d :: rest =>
      match hexUnit? a b c d, quotedParts rest with
      | some n, some (parts, rest) => some (.unit n :: parts, rest)
      | _, _ => none
  | '\\' :: c :: rest =>
      match shortEscape? c, quotedParts rest with
      | some e, some (parts, rest) => some (.char e :: parts, rest)
      | _, _ => none
  | c :: rest =>
      if c = '\\' ∨ c.toNat < 32 then none
      else (quotedParts rest).map fun r => (.char c :: r.1, r.2)

def isHigh (n : Nat) : Bool := 0xD800 ≤ n && n ≤ 0xDBFF

def isLow (n : Nat) : Bool := 0xDC00 ≤ n && n ≤ 0xDFFF

def joinParts : List Part → Option (List Char)
  | [] => some []
  | .char c :: rest => (joinParts rest).map (c :: ·)
  | .unit n :: rest =>
      if isHigh n then
        match rest with
        | .unit m :: rest =>
            if isLow m then
              (joinParts rest).map (Char.ofNat (0x10000 + (n - 0xD800) * 0x400 + (m - 0xDC00)) :: ·)
            else none
        | _ => none
      else if isLow n then none
      else (joinParts rest).map (Char.ofNat n :: ·)

def textToken (parts : List Part) : Token :=
  match joinParts parts with
  | some s => .atom (.text (String.ofList s))
  | none => .brokenText

def hugeFrom : Nat := 18014398509481983 * Nat.pow 2 970

def isHuge (mantissa : Nat) (exponent : Int) : Bool :=
  let places := (writeNat mantissa).length + exponent
  mantissa != 0 && (310 < places ||
    (308 < places && hugeFrom * tenTo (-exponent).toNat ≤ mantissa * tenTo exponent.toNat))

def exponent? : List Char → Option (Int × List Char)
  | s =>
      let negative := s.head? == some '-'
      let s := if negative || s.head? == some '+' then s.tail else s
      let digits := s.takeWhile Char.isDigit
      if digits.isEmpty then none
      else
        let n : Int := ofDigits digits
        some (if negative then -n else n, s.drop digits.length)

def scale? (s : List Char) : Option ((List Char × Int × Bool) × List Char) := do
  let (fraction, s) ← match s with
    | '.' :: rest =>
        let digits := rest.takeWhile Char.isDigit
        if digits.isEmpty then none else some (digits, rest.drop digits.length)
    | s => some ([], s)
  match s with
  | 'e' :: rest => (exponent? rest).map fun r => ((fraction, r.1, true), r.2)
  | 'E' :: rest => (exponent? rest).map fun r => ((fraction, r.1, true), r.2)
  | s => some ((fraction, 0, !fraction.isEmpty), s)

def wholeDigits? : List Char → Option (List Char × List Char)
  | '0' :: rest => some (['0'], rest)
  | s =>
      let digits := s.takeWhile Char.isDigit
      if digits.isEmpty then none else some (digits, s.drop digits.length)

def numberToken? (negative : Bool) (s : List Char) : Option (Token × List Char) := do
  let (whole, s) ← wholeDigits? s
  let ((fraction, exponent, scaled), s) ← scale? s
  let mantissa := ofDigits (whole ++ fraction)
  let value :=
    if isHuge mantissa (exponent - fraction.length) then .unreadable
    else if scaled || (negative && mantissa == 0) then .otherNumber
    else .int (if negative then -mantissa else mantissa)
  return (.atom value, s)

def token? : List Char → Option (Token × List Char)
  | 'n' :: 'u' :: 'l' :: 'l' :: rest => some (.atom .null, rest)
  | 't' :: 'r' :: 'u' :: 'e' :: rest => some (.atom (.bool true), rest)
  | 'f' :: 'a' :: 'l' :: 's' :: 'e' :: rest => some (.atom (.bool false), rest)
  | '"' :: rest => (quotedParts rest).map fun r => (textToken r.1, r.2)
  | '-' :: rest => numberToken? true rest
  | c :: rest => if isMark c then some (.mark c, rest) else numberToken? false (c :: rest)
  | [] => none

def tokensIn : Nat → List Char → Option (List Token)
  | _, [] => some []
  | 0, _ => none
  | n + 1, c :: rest =>
      if isSpace c then tokensIn n rest
      else
        match token? (c :: rest) with
        | some (t, rest) => (tokensIn n rest).map (t :: ·)
        | none => none

def tokens? (s : List Char) : Option (List Token) := tokensIn s.length s

end RecordQuery.Json
