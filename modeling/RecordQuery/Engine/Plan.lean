import RecordQuery.Builder
import RecordQuery.Builder.Script
import RecordQuery.Engine.Error
import RecordQuery.Filter
import RecordQuery.Audit
import RecordQuery.Query

namespace RecordQuery

structure Plan where
  predicates : List Predicate := []
  parameters : List (String × Value) := []
  orders : List Order := []
  distinct : Bool := true

namespace Plan

def ofBuilder (b : Builder) : Plan := { predicates := b.predicates }

def query (p : Plan) (entity : String) (first limit : Int64) : Query :=
  (({ entity := entity, predicates := p.predicates, parameters := p.parameters,
      orders := p.orders, distinct := p.distinct } : Query).withFirst first).withLimit limit

end Plan

structure Criteria where
  entity : String
  settings : Settings
  deriving DecidableEq, Repr

def Criteria.builder (c : Criteria) (locale : Locale) : Builder := ⟨locale, c.settings, .empty⟩

abbrev PlanMaker := Criteria → Except EngineError (Option Plan)

namespace AuditFilter

def idValues : Option IdSet → List Value
  | none => []
  | some ids => ids.toList.map Value.int

def builder (f : AuditFilter) (b : Builder) : Builder :=
  ((((((b.equalBool Audit.deletedColumn f.deleted).among Row.idColumn (idValues f.ids)).among
    Audit.creatorColumn (idValues f.creators)).among
    Audit.editorColumn (idValues f.editors)).betweenTimes
    Audit.createdColumn f.created).betweenTimes
    Audit.editedColumn f.edited).betweenInts Row.versionColumn f.version

def plan (locale : Locale) (f : AuditFilter) (c : Criteria) : Plan :=
  { Plan.ofBuilder (f.builder (c.builder locale)) with distinct := f.page.distinct }

end AuditFilter

end RecordQuery
