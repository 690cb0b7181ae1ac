
namespace RecordQuery

variable {κ α : Type}

structure Keyed (κ α : Type) [Ord κ] where
  entries : List (κ × α)
  ascending : entries.Pairwise (fun x y => compare x.1 y.1 = .lt)
  deriving DecidableEq

namespace Keyed

def find [Ord κ] (key : κ) : List (κ × α) → Option α
  | [] => none
  | (k, a) :: rest => if compare key k = .eq then some a else find key rest

def place [Ord κ] (key : κ) (value : α) : List (κ × α) → List (κ × α)
  | [] => [(key, value)]
  | (k, a) :: rest =>
      match compare key k with
      | .lt => (key, value) :: (k, a) :: rest
      | .eq => (key, value) :: rest
      | .gt => (k, a) :: place key value rest

section

variable [Ord κ]

theorem key_of_mem_place {key : κ} {value : α} {l : List (κ × α)} {x : κ × α}
    (h : x ∈ place key value l) : x = (key, value) ∨ x ∈ l := by
  induction l with
  | nil => exact .inl (by simpa [place] using h)
  | cons y rest ih =>
      obtain ⟨k, a⟩ := y
      rw [place] at h
      split at h
      · rcases List.mem_cons.mp h with rfl | h
        · exact .inl rfl
        · exact .inr h
      · rcases List.mem_cons.mp h with rfl | h
        · exact .inl rfl
        · exact .inr (List.mem_cons_of_mem _ h)
      · rcases List.mem_cons.mp h with rfl | h
        · exact .inr (List.mem_cons_self ..)
        · exact (ih h).imp_right (List.mem_cons_of_mem _)

theorem place_ascending [Std.TransOrd κ] {key : κ} {value : α} {l : List (κ × α)}
    (h : l.Pairwise (fun x y => compare x.1 y.1 = .lt)) :
    (place key value l).Pairwise (fun x y => compare x.1 y.1 = .lt) := by
  induction l with
  | nil => simp [place]
  | cons y rest ih =>
      obtain ⟨k, a⟩ := y
      obtain ⟨hall, hrest⟩ := List.pairwise_cons.mp h
      rw [place]
      split
      · rename_i hlt
        refine List.pairwise_cons.mpr ⟨fun z hz => ?_, h⟩
        rcases List.mem_cons.mp hz with rfl | hz
        · exact hlt
        · exact Std.TransCmp.lt_trans hlt (hall z hz)
      · rename_i heq
        refine List.pairwise_cons.mpr ⟨fun z hz => ?_, hrest⟩
        exact Std.TransCmp.lt_of_eq_of_lt heq (hall z hz)
      · rename_i hgt
        refine List.pairwise_cons.mpr ⟨fun z hz => ?_, ih hrest⟩
        rcases key_of_mem_place hz with rfl | hz
        · exact Std.OrientedCmp.gt_iff_lt.mp hgt
        · exact hall z hz

end

section

variable [Ord κ]

def empty : Keyed κ α := ⟨[], .nil⟩

instance : EmptyCollection (Keyed κ α) := ⟨empty⟩

instance : Inhabited (Keyed κ α) := ⟨empty⟩

def get? (m : Keyed κ α) (key : κ) : Option α := find key m.entries

def contains (m : Keyed κ α) (key : κ) : Bool := (m.get? key).isSome

def size (m : Keyed κ α) : Nat := m.entries.length

def keys (m : Keyed κ α) : List κ := m.entries.map (·.1)

def values (m : Keyed κ α) : List α := m.entries.map (·.2)

def keep (m : Keyed κ α) (p : κ → Bool) : Keyed κ α :=
  ⟨m.entries.filter (fun x => p x.1), m.ascending.filter _⟩

def map {β : Type} (m : Keyed κ α) (f : α → β) : Keyed κ β :=
  ⟨m.entries.map (fun x => (x.1, f x.2)), List.pairwise_map.mpr m.ascending⟩

variable [Std.TransOrd κ]

def put (m : Keyed κ α) (key : κ) (value : α) : Keyed κ α :=
  ⟨place key value m.entries, place_ascending m.ascending⟩

def erase (m : Keyed κ α) (key : κ) : Keyed κ α := m.keep (fun k => compare key k != .eq)

def ofList (l : List (κ × α)) : Keyed κ α := l.foldl (fun m x => m.put x.1 x.2) empty

end

section

variable [Ord κ]

@[simp] theorem get?_empty (key : κ) : (empty : Keyed κ α).get? key = none := rfl

theorem find_map {β : Type} (f : α → β) (key : κ) (l : List (κ × α)) :
    find key (l.map (fun x => (x.1, f x.2))) = (find key l).map f := by
  induction l with
  | nil => rfl
  | cons y rest ih =>
      obtain ⟨k, a⟩ := y
      by_cases h : compare key k = .eq <;> simp [find, h, ih]

@[simp] theorem get?_map {β : Type} (m : Keyed κ α) (f : α → β) (key : κ) :
    (m.map f).get? key = (m.get? key).map f :=
  find_map f key m.entries

variable [Std.LawfulEqOrd κ]

theorem compare_eq_iff {a b : κ} : compare a b = .eq ↔ a = b :=
  ⟨Std.LawfulEqCmp.eq_of_compare, fun h => h ▸ Std.ReflCmp.compare_self⟩

theorem find_place [DecidableEq κ] [Std.TransOrd κ] (key k : κ) (value : α) (l : List (κ × α)) :
    find k (place key value l) = if k = key then some value else find k l := by
  induction l with
  | nil => simp [place, find]
  | cons y rest ih =>
      obtain ⟨k', a⟩ := y
      rw [place]
      split
      · simp [find]
      · rename_i heq
        obtain rfl := compare_eq_iff.mp heq
        by_cases h : k = key <;> simp [find, h]
      · rename_i hgt
        have hne : key ≠ k' := fun e => by
          rw [compare_eq_iff.mpr e] at hgt
          cases hgt
        simp only [find, compare_eq_iff, ih]
        by_cases h : k = k'
        · subst h
          simp [Ne.symm hne]
        · simp [h]

@[simp] theorem get?_put [DecidableEq κ] [Std.TransOrd κ] (m : Keyed κ α) (key k : κ) (value : α) :
    (m.put key value).get? k = if k = key then some value else m.get? k :=
  find_place key k value m.entries

theorem find_filter (p : κ → Bool) (k : κ) (l : List (κ × α)) :
    find k (l.filter (fun x => p x.1)) = if p k then find k l else none := by
  induction l with
  | nil => simp [find]
  | cons y rest ih =>
      obtain ⟨k', a⟩ := y
      by_cases h : k = k'
      · subst h
        by_cases hp : p k <;> simp [find, hp, ih]
      · by_cases hp : p k' <;> simp [find, hp, ih, h]

@[simp] theorem get?_keep (m : Keyed κ α) (p : κ → Bool) (k : κ) :
    (m.keep p).get? k = if p k then m.get? k else none :=
  find_filter p k m.entries

@[simp] theorem get?_erase [DecidableEq κ] (m : Keyed κ α) (key k : κ) :
    (m.erase key).get? k = if k = key then none else m.get? k := by
  rw [erase, get?_keep]
  by_cases h : k = key
  · subst h
    simp
  · simp [h, Ne.symm h]

theorem mem_of_find {k : κ} {a : α} {l : List (κ × α)} (h : find k l = some a) : (k, a) ∈ l := by
  induction l with
  | nil => cases h
  | cons y rest ih =>
      obtain ⟨k', a'⟩ := y
      rw [find] at h
      split at h
      · rename_i heq
        obtain rfl := compare_eq_iff.mp heq
        exact List.mem_cons.mpr (.inl (by rw [Option.some.inj h]))
      · exact List.mem_cons_of_mem _ (ih h)

theorem find_of_mem {k : κ} {a : α} {l : List (κ × α)}
    (hl : l.Pairwise (fun x y => compare x.1 y.1 = .lt)) (h : (k, a) ∈ l) :
    find k l = some a := by
  induction l with
  | nil => cases h
  | cons y rest ih =>
      obtain ⟨k', a'⟩ := y
      obtain ⟨hall, hrest⟩ := List.pairwise_cons.mp hl
      rcases List.mem_cons.mp h with h | h
      · obtain ⟨rfl, rfl⟩ := Prod.mk.inj h
        simp [find]
      · have hlt := hall _ h
        have hne : k ≠ k' := fun e => by
          rw [compare_eq_iff.mpr e.symm] at hlt
          cases hlt
        simp [find, hne, ih hrest h]

theorem mem_entries_iff {m : Keyed κ α} {k : κ} {a : α} :
    (k, a) ∈ m.entries ↔ m.get? k = some a :=
  ⟨find_of_mem m.ascending, mem_of_find⟩

theorem entries_eq {l r : List (κ × α)} [Std.TransOrd κ]
    (hl : l.Pairwise (fun x y => compare x.1 y.1 = .lt))
    (hr : r.Pairwise (fun x y => compare x.1 y.1 = .lt))
    (h : ∀ k, find k l = find k r) : l = r := by
  induction l generalizing r with
  | nil =>
      cases r with
      | nil => rfl
      | cons y rest => simpa [find] using h y.1
  | cons x xs ih =>
      cases r with
      | nil => simpa [find] using h x.1
      | cons y ys =>
          obtain ⟨hx, hxs⟩ := List.pairwise_cons.mp hl
          obtain ⟨hy, hys⟩ := List.pairwise_cons.mp hr
          have hxr : x ∈ y :: ys := mem_of_find (by rw [← h]; simp [find])
          have hyl : y ∈ x :: xs := mem_of_find (by rw [h]; simp [find])
          have hxy : x = y := by
            rcases List.mem_cons.mp hxr with e | hxr
            · exact e
            · rcases List.mem_cons.mp hyl with e | hyl
              · exact e.symm
              · have := Std.TransCmp.lt_trans (hx y hyl) (hy x hxr)
                rw [compare_eq_iff.mpr rfl] at this
                cases this
          subst hxy
          refine congrArg (x :: ·) (ih hxs hys fun k => ?_)
          by_cases hk : k = x.1
          · have none_of (zs : List (κ × α)) (hz : ∀ z ∈ zs, compare x.1 z.1 = .lt) :
                find x.1 zs = none := by
              cases hf : find x.1 zs with
              | none => rfl
              | some a =>
                  have := hz _ (mem_of_find hf)
                  rw [compare_eq_iff.mpr rfl] at this
                  cases this
            rw [hk, none_of xs hx, none_of ys hy]
          · have := h k
            simpa [find, hk] using this

@[ext] theorem ext [Std.TransOrd κ] {l r : Keyed κ α} (h : ∀ k, l.get? k = r.get? k) : l = r := by
  obtain ⟨xs, hx⟩ := l
  obtain ⟨ys, hy⟩ := r
  obtain rfl := entries_eq hx hy h
  rfl

end

end Keyed

end RecordQuery
