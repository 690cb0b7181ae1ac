import RecordQuery.Predicate.Evaluate
import RecordQuery.Text.Numeral

namespace RecordQuery

open RecordQuery.Text

abbrev Ticket := Nat

def Ticket.display (t : Ticket) : String := "uow-" ++ displayNat t

inductive DatabaseFault where
  | notNull (table column : String)
  | notUnique (table column : String)
  | mismatch
  | noColumnOfTable (table column : String)
  | noColumn (column : String)
  | noTable (table : String)
  | unexpected (token : String)
  | commitOutside
  | rollbackOutside
  | beginInside
  | full
  | nestedTooDeep
  | treeTooHigh
  | tooManyValues
  | brokenToken (token : String)
  | patternTooLong
  | noEscape
  deriving DecidableEq, Repr

def DatabaseFault.reason : DatabaseFault → String
  | notNull table column => s!"NOT NULL constraint failed: {table}.{column}"
  | notUnique table column => s!"UNIQUE constraint failed: {table}.{column}"
  | mismatch => "datatype mismatch"
  | noColumnOfTable table column => s!"table {table} has no column named {column}"
  | noColumn column => s!"no such column: {column}"
  | noTable table => s!"no such table: {table}"
  | unexpected token => "near \"" ++ token ++ "\": syntax error"
  | commitOutside => "cannot commit - no transaction is active"
  | rollbackOutside => "cannot rollback - no transaction is active"
  | beginInside => "cannot start a transaction within a transaction"
  | full => "database or disk is full"
  | nestedTooDeep => "parser stack overflow"
  | treeTooHigh => "Expression tree is too large (maximum depth 1000)"
  | tooManyValues => "too many SQL variables"
  | brokenToken token => "unrecognized token: \"" ++ token ++ "\""
  | patternTooLong => "LIKE or GLOB pattern too complex"
  | noEscape => "ESCAPE expression must be a single character"

def DatabaseFault.message (fault : DatabaseFault) : String :=
  "SQLite failure: `" ++ fault.reason ++ "`"

inductive CellFault where
  | real (text : String)
  | blob (size : Nat)
  deriving DecidableEq, Repr

def CellFault.message : CellFault → String
  | real text => "Unsupported REAL value " ++ text
  | blob size => "Unsupported BLOB value of " ++ displayNat size ++ " bytes"

inductive DecodeFault where
  | read (error : Row.ReadError)
  | notAnId (value : Value)
  | cell (fault : CellFault)
  | cellOf (column : String) (fault : CellFault)
  deriving DecidableEq, Repr

def DecodeFault.message : DecodeFault → String
  | read error => error.message
  | notAnId value => "Non-integer id: " ++ value.display
  | cell fault => fault.message
  | cellOf column fault => s!"Failed to decode {column}: {fault.message}"

inductive SqlFault where
  | danglingEscape (pattern : String)
  | noUnitOfWork
  | noTransaction
  | alreadyOpen (ticket : Ticket)
  | insert (entity : String) (fault : DatabaseFault)
  | update (entity : String) (id : Int64) (fault : DatabaseFault)
  | query (entity : String) (fault : DatabaseFault)
  | execute (sql : String) (fault : DatabaseFault)
  | batch (fault : DatabaseFault)
  | openUnit (fault : DatabaseFault)
  | commit (fault : DatabaseFault)
  | rollback (fault : DatabaseFault)
  deriving DecidableEq, Repr

def SqlFault.message : SqlFault → String
  | danglingEscape pattern => s!"LIKE pattern '{pattern}' ends with the escape character"
  | noUnitOfWork => "No unit of work is bound to the store"
  | noTransaction => "No transaction is open"
  | alreadyOpen ticket => s!"Unit of work {ticket.display} is already open"
  | insert entity fault => s!"Failed to insert {entity}: {fault.message}"
  | update entity id fault =>
      "Failed to update " ++ entity ++ " " ++ displayInt id ++ ": " ++ fault.message
  | query entity fault => s!"Failed to query {entity}: {fault.message}"
  | execute sql fault => s!"Failed to execute '{sql}': {fault.message}"
  | batch fault => s!"Failed to execute batch: {fault.message}"
  | openUnit fault => s!"Failed to begin transaction: {fault.message}"
  | commit fault => s!"Failed to commit transaction: {fault.message}"
  | rollback fault => s!"Failed to roll back transaction: {fault.message}"

inductive StoreError where
  | versionConflict (entity : String) (id expected : Int64) (actual : Option Int64)
  | unboundParameter (name : String)
  | decode (entity : String) (fault : DecodeFault)
  | sql (fault : SqlFault)
  | database (fault : DatabaseFault)
  -- A number was counted past the last one there is, which breaks the call off.
  | overflow
  deriving DecidableEq, Repr

def numberAfter (n : Int64) : Except StoreError Int64 :=
  if n = Int64.maxValue then .error .overflow else .ok (n + 1)

theorem numberAfter_of_lt {n : Int64} (h : n < Int64.maxValue) : numberAfter n = .ok (n + 1) :=
  if_neg (Int64.ne_of_lt h)

theorem numberAfter_maxValue : numberAfter Int64.maxValue = .error .overflow := if_pos rfl

theorem numberAfter_cases (n : Int64) :
    (n < Int64.maxValue ∧ numberAfter n = .ok (n + 1)) ∨
      (n = Int64.maxValue ∧ numberAfter n = .error .overflow) := by
  by_cases h : n = Int64.maxValue
  · exact .inr ⟨h, if_pos h⟩
  · exact .inl ⟨Int64.lt_of_le_of_ne (Int64.le_maxValue n) h, if_neg h⟩

namespace StoreError

def displayVersion : Option Int64 → String
  | none => "no row"
  | some v => displayInt v

def message : StoreError → String
  | versionConflict entity id expected actual =>
      "Version conflict for " ++ entity ++ " " ++ displayInt id ++ ": expected version " ++
        displayInt expected ++ ", found " ++ displayVersion actual
  | unboundParameter name => "Unbound query parameter: " ++ name
  | decode entity fault => s!"Failed to decode {entity} row: {fault.message}"
  | sql fault => "SQL execution failed: " ++ fault.message
  | database fault => "Database operation failed: " ++ fault.message
  | overflow => "attempt to add with overflow"

def isConflict : StoreError → Bool
  | versionConflict .. => true
  | _ => false

def ofQuery : QueryFault → StoreError
  | .unboundParameter name => unboundParameter name
  | .danglingEscape pattern => sql (.danglingEscape pattern)

end StoreError

end RecordQuery
