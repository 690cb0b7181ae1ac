import RecordQuery.Settings
import RecordQuery.Store.Error

namespace RecordQuery

open RecordQuery.Text

inductive EngineError where
  | invalidArgument (fault : ArgumentFault)
  | alreadyModified (entity : String) (id : Int64) (cause : StoreError)
  | notFound
  | storage (cause : StoreError)
  deriving DecidableEq, Repr

namespace EngineError

def message : EngineError → String
  | invalidArgument fault => "Invalid argument: " ++ fault.message
  | alreadyModified entity id _ =>
      "Object already modified by different user (" ++ entity ++ " " ++ displayInt id ++ ")"
  | notFound => "Object is null"
  | storage cause => "Storage operation failed: " ++ cause.message

def ofMerge (entity : String) (id : Int64) (e : StoreError) : EngineError :=
  if e.isConflict then alreadyModified entity id e else storage e

end EngineError

end RecordQuery
