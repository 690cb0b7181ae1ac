import Mathlib.Data.List.Nodup
import RecordQuery.Filter.Json
import RecordQuery.Proofs.Data.Keyed
import RecordQuery.Proofs.Json.Reading

namespace RecordQuery.Json

open RecordQuery.Text

theorem uniqueNames_of_nodup {members : Members} (h : (members.map (·.1)).Nodup)
    (names : List String) : uniqueNames names members = true := by
  rw [uniqueNames, List.all_eq_true]
  intro name _
  have hcount := List.nodup_iff_count.mp h name
  rw [List.count_eq_length_filter, List.filter_map, List.length_map] at hcount
  exact decide_eq_true hcount

theorem lookup_eq_none {members : Members} {names : List String}
    (h : (members.map (·.1)).Sublist names) {key : String} (hkey : key ∉ names) :
    members.lookup key = none := by
  refine List.lookup_eq_none_iff.mpr fun m hm => ?_
  have hname : m.1 ∈ names := h.mem (List.mem_map_of_mem hm)
  have hne : key ≠ m.1 := fun heq => hkey (heq ▸ hname)
  simp [hne]

theorem objectMembers?_object {members : Members} {names : List String} (hnames : names.Nodup)
    (h : (members.map (·.1)).Sublist names) (wanted : List String) :
    objectMembers? wanted (.object members) = some members :=
  if_pos (uniqueNames_of_nodup (h.nodup hnames) wanted)

section

variable {α : Type} {name : String} {f : α → Json} {o : Option α}

theorem names_given : ((given name f o).map (·.1)).Sublist [name] := by
  cases o with
  | none => exact List.nil_sublist _
  | some a => exact List.Sublist.refl _

theorem lookup_given {key : String} :
    (given name f o).lookup key = if key = name then o.map f else none := by
  cases o with
  | none => simp [given]
  | some a =>
      rw [given, List.lookup_cons]
      by_cases h : key = name
      · simp [h]
      · simp [beq_false_of_ne h, h]

theorem forall_mem_given {p : Json → Prop} (h : ∀ a, o = some a → p (f a)) :
    ∀ m ∈ given name f o, p m.2 := by
  cases o with
  | none => exact nofun
  | some a => exact List.forall_mem_cons.mpr ⟨h a rfl, nofun⟩

theorem Members.optional_given {members : Members} {g : Json → Option α}
    (h : members.lookup name = o.map f) (hread : ∀ a, o = some a → g (f a) = some a)
    (hnull : ∀ a, f a ≠ .null) : members.optional name g = some o := by
  cases o with
  | none => rw [optional, h, Option.map_none]
  | some a =>
      rw [optional, h, Option.map_some]
      split
      · rename_i heq
        cases heq
      · rename_i heq
        exact absurd (Option.some.inj heq) (hnull a)
      · rename_i heq
        rw [← Option.some.inj heq, hread a rfl]
        rfl

end

structure Shallow (j : Json) : Prop where
  depth : j.depth ≤ 1
  complete : j.isComplete = true
  exact : j.isExact = true

theorem shallow_bool (b : Bool) : Shallow (.bool b) := ⟨Nat.zero_le 1, rfl, rfl⟩

theorem shallow_text (s : String) : Shallow (.text s) := ⟨Nat.zero_le 1, rfl, rfl⟩

theorem isHuge_int64 (n : Int64) : isHuge n.toInt.natAbs 0 = false := by
  have hleast := n.le_toInt
  have hmost := n.toInt_lt
  have hlength := length_writeNat_le (n := n.toInt.natAbs) (k := 19) (by decide) (by omega)
  have hplaces : ¬(308 < ((writeNat n.toInt.natAbs).length : Int) + 0) := by omega
  have hmore : ¬(310 < ((writeNat n.toInt.natAbs).length : Int) + 0) := by omega
  simp only [isHuge, decide_eq_false hmore, decide_eq_false hplaces, Bool.false_and, Bool.or_false,
    Bool.and_false]

theorem shallow_int (n : Int64) : Shallow (.int n.toInt) :=
  ⟨Nat.zero_le 1, rfl, by simp [isExact, isHuge_int64]⟩

theorem shallow_list {items : List Json}
    (h : ∀ j ∈ items, j.depth = 0 ∧ j.isComplete = true ∧ j.isExact = true) :
    Shallow (.list items) := by
  have hparts : depthAll items = 0 ∧ isCompleteAll items = true ∧ isExactAll items = true := by
    induction items with
    | nil => exact ⟨rfl, rfl, rfl⟩
    | cons j rest ih =>
        obtain ⟨⟨hdepth, hcomplete, hexact⟩, hrest⟩ := List.forall_mem_cons.mp h
        obtain ⟨hdepths, hcompletes, hexacts⟩ := ih hrest
        exact ⟨by rw [depthAll, hdepth, hdepths]; rfl,
          Bool.and_eq_true_iff.mpr ⟨hcomplete, hcompletes⟩,
          Bool.and_eq_true_iff.mpr ⟨hexact, hexacts⟩⟩
  obtain ⟨hdepth, hcomplete, hexact⟩ := hparts
  exact ⟨by rw [depth, hdepth], hcomplete, hexact⟩

theorem object_of_shallow {members : Members} (h : ∀ m ∈ members, Shallow m.2) :
    isPlain (.object members) = true ∧ isExact (.object members) = true := by
  have hparts : depthMembers members ≤ 1 ∧ isCompleteMembers members = true ∧
      isExactMembers members = true := by
    induction members with
    | nil => exact ⟨Nat.zero_le 1, rfl, rfl⟩
    | cons m rest ih =>
        obtain ⟨hm, hrest⟩ := List.forall_mem_cons.mp h
        obtain ⟨hdepth, hcomplete, hexact⟩ := ih hrest
        exact ⟨Nat.max_le.mpr ⟨hm.depth, hdepth⟩, Bool.and_eq_true_iff.mpr ⟨hm.complete, hcomplete⟩,
          Bool.and_eq_true_iff.mpr ⟨hm.exact, hexact⟩⟩
  obtain ⟨hdepth, hcomplete, hexact⟩ := hparts
  refine ⟨?_, hexact⟩
  rw [isPlain, isComplete, hcomplete, depth]
  simp
  omega

theorem asInt64_int (n : Int64) : asInt64 (.int n.toInt) = some n := by
  rw [asInt64, if_pos ⟨n.minValue_le_toInt, n.toInt_le⟩, Int64.ofInt_toInt]

end RecordQuery.Json
