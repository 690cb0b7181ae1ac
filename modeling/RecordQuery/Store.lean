import RecordQuery.Cache
import RecordQuery.Query
import RecordQuery.Store.Error

namespace RecordQuery

/-- The operations of a store with states in `σ`. An operation that changes the state answers with
the state after it, also if it fails. -/
class Store (σ : Type) where
  rows : Query → σ → Except StoreError (List Row)
  column : Query → String → σ → Except StoreError (List Value)
  count : Query → σ → Except StoreError Int64
  find : String → Int64 → σ → Except StoreError (Option Row) × σ
  insert : String → Row → σ → Except StoreError Row × σ
  update : String → Int64 → Option Int64 → Row → σ → Except StoreError Row × σ
  flush : σ → σ
  cache : σ → Cache
  withCache : σ → Cache → σ
  next : String → σ → Except StoreError Int64 × σ
  openUnit : σ → Except StoreError Ticket
  sql : Query → Projection → σ → Option String

namespace Store

variable {σ : Type} [Store σ]

def evictAll (s : σ) : σ := withCache s (cache s).evictAll

def evictEntity (entity : String) (s : σ) : σ := withCache s ((cache s).evictEntity entity)

def evict (entity : String) (id : Int64) (s : σ) : σ := withCache s ((cache s).evict entity id)

end Store

end RecordQuery
