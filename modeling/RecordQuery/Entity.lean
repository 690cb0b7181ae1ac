import RecordQuery.Audit

namespace RecordQuery

/-- A type whose values are stored as rows of one table. An id of zero marks a value that is not
yet stored; a type without versions has none to compare. -/
class Entity (E : Type) where
  name : String
  id : E → Int64
  version : E → Option Int64
  withId : E → Int64 → E
  withVersion : E → Int64 → E
  toRow : E → Row
  ofRow : Row → Except Row.ReadError E
  blank : E

class Audited (E : Type) extends Entity E where
  audit : E → Audit
  withAudit : E → Audit → E

def Entity.isTransient {E : Type} [Entity E] (e : E) : Bool := id e == 0

end RecordQuery
