import RecordQuery.Time.Reader

namespace RecordQuery

open RecordQuery.Text RecordQuery.Time

inductive BoundFault where
  | numeral (fault : NumeralFault)
  | time (fault : TimeFault)
  deriving DecidableEq, Repr

def BoundFault.message : BoundFault → String
  | numeral fault => fault.message
  | time fault => fault.message

inductive FormatError where
  | boundsFieldCount (input : String) (found : Nat)
  | invalidBound (bound : String) (fault : BoundFault)
  | unknownMatching (name : String)
  | invalidTextFilter (input : String)
  | invalidLocale (tag : String)
  deriving DecidableEq, Repr

def FormatError.message : FormatError → String
  | boundsFieldCount input found =>
      s!"Invalid range '{input}': expected 4 fields separated by ';', found {found}"
  | invalidBound bound fault => s!"Invalid range bound '{bound}': {fault.message}"
  | unknownMatching name => s!"Unknown matching '{name}'"
  | invalidTextFilter input => s!"Invalid filter string field '{input}'"
  | invalidLocale tag => s!"Invalid locale '{tag}'"

end RecordQuery
