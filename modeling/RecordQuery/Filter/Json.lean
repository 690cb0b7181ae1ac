import RecordQuery.Bounds.Text
import RecordQuery.Filter
import RecordQuery.Json.Reader
import RecordQuery.Json.Record
import RecordQuery.Json.Writer

namespace RecordQuery

open RecordQuery.Time

namespace Json

def asLocale (j : Json) : Option Locale := do
  match Locale.read (← j.asText) with
  | .ok l => some l
  | .error _ => none

def asIdSet (j : Json) : Option IdSet := (j.asList asInt64).map IdSet.ofList

def asBounds {α : Type} [BoundText α] (j : Json) : Option (Bounds α) := do
  match Bounds.read (← j.asText) with
  | .ok r => some r
  | .error _ => none

def ofLocale (l : Locale) : Json := .text l.tag

def ofIdSet (s : IdSet) : Json := .list (s.toList.map (.int ·.toInt))

def ofBounds {α : Type} [BoundText α] (r : Bounds α) : Json := .text r.display

def given {α : Type} (name : String) (f : α → Json) : Option α → List (String × Json)
  | none => []
  | some a => [(name, f a)]

end Json

namespace Page

def names : List String := ["distinct", "firstResult", "maxResults", "locale"]

def ofMembers? (members : Json.Members) : Option Page := do
  let distinct ← members.withDefault "distinct" false Json.asBool
  let first ← members.withDefault "firstResult" 0 Json.asInt64
  let limit ← members.withDefault "maxResults" 0 Json.asInt64
  let locale ← members.optional "locale" Json.asLocale
  return ⟨distinct, first, limit, locale⟩

def ofJson? (j : Json) : Option Page := (j.members? names).bind ofMembers?

def members (p : Page) : List (String × Json) :=
  [("distinct", .bool p.distinct), ("firstResult", .int p.first.toInt),
    ("maxResults", .int p.limit.toInt)] ++ Json.given "locale" Json.ofLocale p.locale

def json (p : Page) : Json := .object p.members

end Page

namespace IdentityFilter

def names : List String := Page.names ++ ["ids"]

def ofMembers? (members : Json.Members) : Option IdentityFilter := do
  let page ← Page.ofMembers? members
  let ids ← members.optional "ids" Json.asIdSet
  return ⟨page, ids⟩

def ofJson? (j : Json) : Option IdentityFilter :=
  if j.isPlain then (j.objectMembers? names).bind ofMembers? else none

def members (f : IdentityFilter) : List (String × Json) :=
  f.page.members ++ Json.given "ids" Json.ofIdSet f.ids

def json (f : IdentityFilter) : Json := .object f.members

end IdentityFilter

namespace AuditFilter

def names : List String :=
  IdentityFilter.names ++ ["creators", "editors", "created", "edited", "version", "deleted"]

def ofMembers? (members : Json.Members) : Option AuditFilter := do
  let identity ← IdentityFilter.ofMembers? members
  let creators ← members.optional "creators" Json.asIdSet
  let editors ← members.optional "editors" Json.asIdSet
  let created ← members.optional "created" Json.asBounds
  let edited ← members.optional "edited" Json.asBounds
  let version ← members.optional "version" Json.asBounds
  let deleted ← members.optional "deleted" Json.asBool
  return ⟨identity, creators, editors, created, edited, version, deleted⟩

def ofJson? (j : Json) : Option AuditFilter :=
  if j.isPlain then (j.objectMembers? names).bind ofMembers? else none

def members (f : AuditFilter) : List (String × Json) :=
  f.identity.members ++ Json.given "creators" Json.ofIdSet f.creators ++
    Json.given "editors" Json.ofIdSet f.editors ++ Json.given "created" Json.ofBounds f.created ++
    Json.given "edited" Json.ofBounds f.edited ++ Json.given "version" Json.ofBounds f.version ++
    Json.given "deleted" Json.bool f.deleted

def json (f : AuditFilter) : Json := .object f.members

end AuditFilter

def Page.readJson? (s : String) : Option Page := (Json.read? s).bind Page.ofJson?

def IdentityFilter.readJson? (s : String) : Option IdentityFilter :=
  (Json.read? s).bind IdentityFilter.ofJson?

def AuditFilter.readJson? (s : String) : Option AuditFilter :=
  (Json.read? s).bind AuditFilter.ofJson?

end RecordQuery
