import RecordQuery.Bounds
import RecordQuery.Data.Keyed
import RecordQuery.Locale

namespace RecordQuery

open RecordQuery.Time

abbrev IdSet := Keyed Int64 Unit

namespace IdSet

def ofList (ids : List Int64) : IdSet := Keyed.ofList (ids.map (·, ()))

def toList (s : IdSet) : List Int64 := s.keys

end IdSet

structure Page where
  distinct : Bool := false
  first : Int64 := 0
  limit : Int64 := 0
  locale : Option Locale := none
  deriving DecidableEq, Repr

def Page.localeIn (p : Page) (environment : String → Option String) : Locale :=
  p.locale.getD (Locale.systemDefault environment)

structure IdentityFilter where
  page : Page := {}
  ids : Option IdSet := none
  deriving DecidableEq

structure AuditFilter where
  identity : IdentityFilter := {}
  creators : Option IdSet := none
  editors : Option IdSet := none
  created : Option (Bounds Instant) := none
  edited : Option (Bounds Instant) := none
  version : Option (Bounds Int64) := none
  deleted : Option Bool := none
  deriving DecidableEq

namespace AuditFilter

def page (f : AuditFilter) : Page := f.identity.page

def ids (f : AuditFilter) : Option IdSet := f.identity.ids

end AuditFilter

end RecordQuery
