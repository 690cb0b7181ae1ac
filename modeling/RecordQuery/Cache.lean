import RecordQuery.Row.File

namespace RecordQuery

structure Cache where
  rows : RowFile := {}
  hits : Nat := 0
  misses : Nat := 0
  deriving DecidableEq

namespace Cache

instance : Inhabited Cache := ⟨{}⟩

def row? (c : Cache) (entity : String) (id : Int64) : Option Row := c.rows.row? entity id

def get (c : Cache) (entity : String) (id : Int64) : Option Row × Cache :=
  match c.row? entity id with
  | some row => (some row, { c with hits := c.hits + 1 })
  | none => (none, { c with misses := c.misses + 1 })

def put (c : Cache) (entity : String) (id : Int64) (row : Row) : Cache :=
  { c with rows := c.rows.put entity id row }

def contains (c : Cache) (entity : String) (id : Int64) : Bool := (c.row? entity id).isSome

def evictAll (c : Cache) : Cache := { c with rows := {} }

def evictEntity (c : Cache) (entity : String) : Cache :=
  { c with rows := c.rows.eraseRegion entity }

def evict (c : Cache) (entity : String) (id : Int64) : Cache :=
  { c with rows := c.rows.erase entity id }

def size (c : Cache) : Nat := c.rows.size

@[simp] theorem get_fst (c : Cache) (entity : String) (id : Int64) :
    (c.get entity id).1 = c.row? entity id := by
  rw [get]
  split <;> simp_all

@[simp] theorem row?_get (c : Cache) (entity e : String) (id i : Int64) :
    (c.get entity id).2.row? e i = c.row? e i := by
  rw [get]
  split <;> rfl

@[simp] theorem row?_put (c : Cache) (entity e : String) (id i : Int64) (row : Row) :
    (c.put entity id row).row? e i = if e = entity ∧ i = id then some row else c.row? e i :=
  RowFile.row?_put ..

@[simp] theorem row?_evict (c : Cache) (entity e : String) (id i : Int64) :
    (c.evict entity id).row? e i = if e = entity ∧ i = id then none else c.row? e i :=
  RowFile.row?_erase ..

@[simp] theorem row?_evictEntity (c : Cache) (entity e : String) (i : Int64) :
    (c.evictEntity entity).row? e i = if e = entity then none else c.row? e i :=
  RowFile.row?_eraseRegion ..

@[simp] theorem row?_evictAll (c : Cache) (e : String) (i : Int64) :
    c.evictAll.row? e i = none := rfl

end Cache

end RecordQuery
