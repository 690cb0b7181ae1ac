import RecordQuery.Text.CaseTable

namespace RecordQuery.Text

def lowerOf (c : Char) : List Char :=
  if c.toNat = 0x130 then ['i', '\u0307']
  else match capitals.find? (·.covers c.toNat) with
    | some run => [Char.ofNat (run.target c.toNat)]
    | none => [c]

def isCased (c : Char) : Bool := casedSpans.any (Span.holds c.toNat)

def isIgnorable (c : Char) : Bool := ignorableSpans.any (Span.holds c.toNat)

def meetsCased : List Char → Bool
  | [] => false
  | c :: rest => if isIgnorable c then meetsCased rest else isCased c

def capitalSigma : Char := '\u03A3'

def lowerSigma (before after : List Char) : Char :=
  if meetsCased before && !meetsCased after then '\u03C2' else '\u03C3'

def lowerFrom (before : List Char) : List Char → List Char
  | [] => []
  | c :: rest =>
      (if c = capitalSigma then [lowerSigma before rest] else lowerOf c) ++
        lowerFrom (c :: before) rest

def lower (s : List Char) : List Char := lowerFrom [] s

def lowerTurkicOf (c : Char) : List Char :=
  if c = 'I' then ['\u0131'] else if c.toNat = 0x130 then ['i'] else lowerOf c

def lowerTurkic (s : List Char) : List Char := s.flatMap lowerTurkicOf

def lowerAscii (s : List Char) : List Char := s.map Char.toLower

def upperAscii (s : List Char) : List Char := s.map Char.toUpper

end RecordQuery.Text
