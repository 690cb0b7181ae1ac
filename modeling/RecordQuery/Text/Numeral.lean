namespace RecordQuery.Text

inductive NumeralFault where
  | empty
  | invalidDigit
  | tooLarge
  | tooSmall
  deriving DecidableEq, Repr

def NumeralFault.message : NumeralFault → String
  | .empty => "cannot parse integer from empty string"
  | .invalidDigit => "invalid digit found in string"
  | .tooLarge => "number too large to fit in target type"
  | .tooSmall => "number too small to fit in target type"

def tenTo (n : Nat) : Nat := Nat.pow 10 n

def writeNat (n : Nat) : List Char := Nat.toDigits 10 n

def writeInt : Int → List Char
  | .ofNat n => writeNat n
  | .negSucc n => '-' :: writeNat (n + 1)

def displayNat (n : Nat) : String := String.ofList (writeNat n)

def displayInt (n : Int64) : String := String.ofList (writeInt n.toInt)

def ofDigits (digits : List Char) : Nat := Nat.ofDigitChars 10 digits 0

def digitValue (c : Char) : Nat := c.toNat - '0'.toNat

def bounded (lo hi n : Int) : Except NumeralFault Int :=
  if hi < n then .error .tooLarge else if n < lo then .error .tooSmall else .ok n

/-- Reads digits from the left and stops at the first one that is no digit or leaves the bounds, so
that of two faults the earlier one is reported. -/
def readDigits (lo hi sign : Int) : Int → List Char → Except NumeralFault Int
  | n, [] => .ok n
  | n, c :: rest =>
      if c.isDigit then
        match bounded lo hi (n * 10 + sign * digitValue c) with
        | .ok m => readDigits lo hi sign m rest
        | .error fault => .error fault
      else .error .invalidDigit

def readInt (lo hi : Int) : List Char → Except NumeralFault Int
  | [] => .error .empty
  | ['+'] => .error .invalidDigit
  | ['-'] => .error .invalidDigit
  | '+' :: digits => readDigits lo hi 1 0 digits
  | '-' :: digits => if lo < 0 then readDigits lo hi (-1) 0 digits else .error .invalidDigit
  | digits => readDigits lo hi 1 0 digits

def padLeft (width : Nat) (s : List Char) : List Char :=
  List.replicate (width - s.length) '0' ++ s

def writePadded (width n : Nat) : List Char := padLeft width (writeNat n)

def trimZeros (digits : List Char) : List Char := (digits.reverse.dropWhile (· == '0')).reverse

theorem length_padLeft (width : Nat) (s : List Char) :
    (padLeft width s).length = max width s.length := by
  simp [padLeft]
  omega

theorem readDigits_eq_ok {lo hi sign n m : Int} {s : List Char}
    (h : readDigits lo hi sign n s = .ok m) : ∀ c ∈ s, c.isDigit = true := by
  induction s generalizing n with
  | nil => simp
  | cons c rest ih =>
      rw [readDigits] at h
      split at h
      · rename_i hc
        split at h
        · intro d hd
          rcases List.mem_cons.mp hd with rfl | hd
          · exact hc
          · exact ih h d hd
        · cases h
      · cases h

end RecordQuery.Text
