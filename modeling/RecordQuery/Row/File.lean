import RecordQuery.Row

namespace RecordQuery

structure RowFile where
  regions : Keyed String (Keyed Int64 Row) := .empty
  deriving DecidableEq

namespace RowFile

instance : Inhabited RowFile := ⟨{}⟩

def region (f : RowFile) (entity : String) : Keyed Int64 Row :=
  (f.regions.get? entity).getD .empty

def row? (f : RowFile) (entity : String) (id : Int64) : Option Row := (f.region entity).get? id

def put (f : RowFile) (entity : String) (id : Int64) (row : Row) : RowFile :=
  ⟨f.regions.put entity ((f.region entity).put id row)⟩

def erase (f : RowFile) (entity : String) (id : Int64) : RowFile :=
  ⟨f.regions.put entity ((f.region entity).erase id)⟩

def eraseRegion (f : RowFile) (entity : String) : RowFile := ⟨f.regions.erase entity⟩

def size (f : RowFile) : Nat := (f.regions.values.map Keyed.size).foldr (· + ·) 0

theorem region_put (f : RowFile) (entity e : String) (id : Int64) (row : Row) :
    (f.put entity id row).region e =
      if e = entity then (f.region entity).put id row else f.region e := by
  by_cases h : e = entity <;> simp [put, region, h]

@[simp] theorem row?_put (f : RowFile) (entity e : String) (id i : Int64) (row : Row) :
    (f.put entity id row).row? e i = if e = entity ∧ i = id then some row else f.row? e i := by
  rw [row?, region_put]
  by_cases he : e = entity
  · subst he
    by_cases hi : i = id <;> simp [row?, hi]
  · simp [row?, he]

@[simp] theorem row?_erase (f : RowFile) (entity e : String) (id i : Int64) :
    (f.erase entity id).row? e i = if e = entity ∧ i = id then none else f.row? e i := by
  by_cases he : e = entity
  · subst he
    by_cases hi : i = id <;> simp [row?, region, erase, hi]
  · simp [row?, region, erase, he]

@[simp] theorem row?_eraseRegion (f : RowFile) (entity e : String) (i : Int64) :
    (f.eraseRegion entity).row? e i = if e = entity then none else f.row? e i := by
  by_cases he : e = entity <;> simp [row?, region, eraseRegion, he]

@[simp] theorem row?_empty (e : String) (i : Int64) : ({} : RowFile).row? e i = none := rfl

end RowFile

end RecordQuery
