import RecordQuery.Engine.Plan
import RecordQuery.Entity
import RecordQuery.Store

namespace RecordQuery

open RecordQuery.Text RecordQuery.Time

structure Engine (σ : Type) where
  store : σ
  settings : Settings := {}
  clock : Instant := Instant.epoch

namespace Engine

variable {σ E : Type} [Store σ]

def of (store : σ) (settings : Settings) (clock : Instant) :
    Except EngineError (Engine σ) :=
  match settings.check with
  | .ok () => .ok ⟨store, settings, clock⟩
  | .error fault => .error (.invalidArgument fault)

def lift {α : Type} : Except StoreError α → Except EngineError α
  | .ok a => .ok a
  | .error e => .error (.storage e)

def after {α : Type} (e : Engine σ) (r : Except StoreError α × σ) :
    Except EngineError α × Engine σ :=
  (lift r.1, { e with store := r.2 })

def advance (e : Engine σ) (millis : Int) : Engine σ :=
  { e with clock := e.clock.advanceMillis millis }

section

variable [Entity E]

def criteria (E : Type) [Entity E] (e : Engine σ) : Criteria := ⟨Entity.name E, e.settings⟩

def query (E : Type) [Entity E] (first limit : Int64) (make : PlanMaker) (e : Engine σ) :
    Except EngineError Query :=
  match make (e.criteria E) with
  | .ok plan => .ok ((plan.getD {}).query (Entity.name E) first limit)
  | .error fault => .error fault

def decode (row : Row) : Except EngineError E :=
  match Entity.ofRow row with
  | .ok a => .ok a
  | .error fault => .error (.storage (.decode (Entity.name E) (.read fault)))

def count (E : Type) [Entity E] (make : PlanMaker) (e : Engine σ) : Except EngineError Int64 :=
  match e.query E 0 0 make with
  | .ok q => lift (Store.count q e.store)
  | .error fault => .error fault

def list (first limit : Int64) (make : PlanMaker) (e : Engine σ) : Except EngineError (List E) :=
  match e.query E first limit make with
  | .error fault => .error fault
  | .ok q =>
      match Store.rows q e.store with
      | .error fault => .error (.storage fault)
      | .ok rows => rows.mapM decode

def idOf (E : Type) [Entity E] (v : Value) : Except EngineError Int64 :=
  match v.asInt with
  | some id => .ok id
  | none => .error (.storage (.decode (Entity.name E) (.notAnId v)))

def ids (E : Type) [Entity E] (first limit : Int64) (make : PlanMaker) (e : Engine σ) :
    Except EngineError (List Int64) :=
  match e.query E first limit make with
  | .error fault => .error fault
  | .ok q =>
      match Store.column q Row.idColumn e.store with
      | .error fault => .error (.storage fault)
      | .ok values => values.mapM (idOf E)

def save (a : E) (flush : Bool) (e : Engine σ) : Except EngineError E × Engine σ :=
  let (result, store) :=
    if Entity.isTransient a then
      let r := Store.insert (Entity.name E) (Entity.toRow a) e.store
      (lift r.1, r.2)
    else
      let id := Entity.id a
      let r := Store.update (Entity.name E) id (Entity.version a) (Entity.toRow a) e.store
      (r.1.mapError (.ofMerge (Entity.name E) id), r.2)
  match result with
  | .error fault => (.error fault, { e with store := store })
  | .ok row => (decode row, { e with store := if flush then Store.flush store else store })

def saveOptional (a : Option E) (flush : Bool) (e : Engine σ) :
    Except EngineError (Option E) × Engine σ :=
  match a with
  | none => (.ok none, e)
  | some a =>
      let r := e.save a flush
      (r.1.map some, r.2)

def load (id : Int64) (clear : Bool) (e : Engine σ) : Except EngineError (Option E) × Engine σ :=
  let store := if clear then Store.evict (Entity.name E) id e.store else e.store
  let (found, store) := Store.find (Entity.name E) id store
  let e := { e with store := store }
  match found with
  | .error fault => (.error (.storage fault), e)
  | .ok none => (.ok none, e)
  | .ok (some row) => ((decode row).map some, e)

def loadBy (make : PlanMaker) (clear : Bool) (e : Engine σ) :
    Except EngineError (Option E) × Engine σ :=
  match e.list 0 1 make with
  | .error fault => (.error fault, e)
  | .ok [] => (.ok none, e)
  | .ok (a :: _) => if clear then e.load (Entity.id a) true else (.ok (some a), e)

def orElse (r : Except EngineError (Option E) × Engine σ) (a : E) :
    Except EngineError E × Engine σ :=
  (r.1.map (·.getD a), r.2)

def findOrCreateBy (make : PlanMaker) (clear : Bool) (e : Engine σ) :
    Except EngineError E × Engine σ :=
  orElse (e.loadBy make clear) Entity.blank

def findOrCreateWith (id : Option Int64) (clear : Bool) (a : E) (e : Engine σ) :
    Except EngineError E × Engine σ :=
  match id with
  | none => (.ok a, e)
  | some id => if id = 0 then (.ok a, e) else orElse (e.load id clear) a

def findOrCreate (id : Option Int64) (clear : Bool) (e : Engine σ) :
    Except EngineError E × Engine σ :=
  e.findOrCreateWith id clear Entity.blank

def notNull {α : Type} : Option α → Except EngineError α
  | some a => .ok a
  | none => .error .notFound

def clearAll (e : Engine σ) : Engine σ := { e with store := Store.evictAll e.store }

def clearEntity (E : Type) [Entity E] (e : Engine σ) : Engine σ :=
  { e with store := Store.evictEntity (Entity.name E) e.store }

def clearId (E : Type) [Entity E] (id : Int64) (e : Engine σ) : Engine σ :=
  { e with store := Store.evict (Entity.name E) id e.store }

def clearOf (a : E) (e : Engine σ) : Engine σ :=
  if Entity.isTransient a then e else e.clearId E (Entity.id a)

end

def stamp [Audited E] (user : Option Int64) (now : Instant) (a : E) : E :=
  let audit := Audited.audit a
  let audit :=
    if Entity.isTransient a then { audit with created := now, creator := user } else audit
  Audited.withAudit a { audit with edited := now, editor := user }

def saveAudited [Audited E] (a : E) (user : Option Int64) (flush : Bool) (e : Engine σ) :
    Except EngineError E × Engine σ :=
  e.save (stamp user e.clock a) flush

def generateId (name : String) (e : Engine σ) : Except EngineError Int64 × Engine σ :=
  if allBlank name.toList then (.error (.invalidArgument .blankSequence), e)
  else e.after (Store.next name e.store)

def unitOfWork? (e : Engine σ) : Option Ticket :=
  match Store.openUnit e.store with
  | .ok ticket => some ticket
  | .error _ => none

def sql? (q : Query) (projection : Projection) (e : Engine σ) : Option String :=
  Store.sql q projection e.store

end Engine

end RecordQuery
