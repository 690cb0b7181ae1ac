import RecordQuery.Data.Keyed
import RecordQuery.Value

namespace RecordQuery

open RecordQuery.Time

abbrev Row := Keyed String Value

namespace Row

def idColumn : String := "id"

def versionColumn : String := "version"

inductive Kind where
  | integer
  | text
  | boolean
  | time
  deriving DecidableEq, Repr

inductive ReadError where
  | missing (column : String)
  | mismatch (column : String) (kind : Kind) (value : Value)
  deriving DecidableEq, Repr

def ReadError.message : ReadError → String
  | missing column => s!"Column '{column}' is NULL"
  | mismatch column .integer v => s!"Failed to read '{column}' as integer: {v.display}"
  | mismatch column .text v => s!"Failed to read '{column}' as text: {v.display}"
  | mismatch column .boolean v => s!"Failed to read '{column}' as boolean: {v.display}"
  | mismatch column .time v => s!"Failed to parse '{column}' as timestamp: {v.display}"

def value (row : Row) (column : String) : Value := (row.get? column).getD .null

def read? {α : Type} (view : Value → Option α) (kind : Kind) (row : Row) (column : String) :
    Except ReadError (Option α) :=
  match row.value column with
  | .null => .ok none
  | v =>
      match view v with
      | some a => .ok (some a)
      | none => .error (.mismatch column kind v)

def read {α : Type} (view : Value → Option α) (kind : Kind) (row : Row) (column : String) :
    Except ReadError α :=
  match read? view kind row column with
  | .ok (some a) => .ok a
  | .ok none => .error (.missing column)
  | .error e => .error e

def int? : Row → String → Except ReadError (Option Int64) := read? Value.asInt .integer

def int : Row → String → Except ReadError Int64 := read Value.asInt .integer

def text? : Row → String → Except ReadError (Option String) := read? Value.asText .text

def text : Row → String → Except ReadError String := read Value.asText .text

def bool? : Row → String → Except ReadError (Option Bool) := read? Value.asBool .boolean

def time? : Row → String → Except ReadError (Option Instant) := read? Value.asTime .time

def time : Row → String → Except ReadError Instant := read Value.asTime .time

end Row

end RecordQuery
