import RecordQuery.Proofs.Builder.Places
import RecordQuery.Proofs.Value

namespace RecordQuery

section Chunks

variable {α : Type} {size : Nat} {l part : List α}

theorem of_mem_chunksIn (hsize : 0 < size) {n : Nat} (h : part ∈ chunksIn size n l) :
    part ≠ [] ∧ part.length ≤ size := by
  induction n generalizing l with
  | zero => cases h
  | succ n ih =>
      cases l with
      | nil => cases h
      | cons a rest =>
          rcases List.mem_cons.mp h with rfl | hrest
          · refine ⟨?_, List.length_take_le size (a :: rest)⟩
            simp [Nat.pos_iff_ne_zero.mp hsize]
          · exact ih hrest

theorem of_mem_chunks (hsize : 0 < size) (h : part ∈ chunks size l) :
    part ≠ [] ∧ part.length ≤ size :=
  of_mem_chunksIn hsize h

theorem chunks_of_length_le (hl : l ≠ []) (hle : l.length ≤ size) : chunks size l = [l] := by
  cases l with
  | nil => exact absurd rfl hl
  | cons a rest =>
      change (a :: rest).take size :: chunksIn size rest.length ((a :: rest).drop size) = _
      rw [List.take_of_length_le hle, List.drop_eq_nil_of_le hle]
      cases rest <;> rfl

theorem mem_of_singleton_mem_chunks {a : α} (hsize : 0 < size) (h : [a] ∈ chunks size l) : a ∈ l :=
  chunks_flatten hsize l ▸ List.mem_flatten_of_mem h (List.mem_singleton_self a)

theorem singleton_mem_chunks_one {a : α} (ha : a ∈ l) : [a] ∈ chunks 1 l := by
  obtain ⟨part, hpart, b, hb, rfl⟩ :=
    (exists_mem_chunks Nat.one_pos l (· = a)).mpr ⟨a, ha, rfl⟩
  have hlength : part = [b] := by
    have hle := (of_mem_chunks Nat.one_pos hpart).2
    match part, hb with
    | [c], hb => rw [List.mem_singleton.mp hb]
  exact hlength ▸ hpart

end Chunks

theorem Truth.among_eq_no {α : Type} {isNull : α → Bool} {compare? : α → α → Option Ordering}
    {a : α} {items : List α} :
    among isNull compare? a items = no ↔
      isNull a = false ∧ ∀ b ∈ items, compare? a b ≠ some .eq ∧ isNull b = false := by
  have hany : items.any (fun b => compare? a b == some .eq) = false ↔
      ∀ b ∈ items, compare? a b ≠ some .eq := by simp
  have hnull : items.any isNull = false ↔ ∀ b ∈ items, isNull b = false := by simp
  rw [among, forall₂_and, ← hany, ← hnull]
  cases isNull a <;> cases items.any (fun b => compare? a b == some .eq) <;>
    cases items.any isNull <;> decide

theorem Value.not_isNull_of_compare? {u v : Value} {c : Ordering} (h : u.compare? v = some c) :
    u.isNull = false ∧ v.isNull = false := by
  constructor
  · cases u <;> first | rfl | cases h
  · cases v <;> first | rfl | (rw [compare?_null_right] at h; cases h)

theorem Truth.negate_eq_yes {t : Truth} : t.negate = yes ↔ t = no := by
  cases t <;> decide

namespace Builder

variable {b : Builder} {params : Parameters} {row : Row} {field : String} {values : List Value}

theorem leaves_listPredicate (part : List Value) :
    (listPredicate (.field field) part).leaves = [listPredicate (.field field) part] := by
  match part with
  | [] => rfl
  | [v] => rfl
  | v :: w :: rest => rfl

theorem not_mayFail_listPredicate (part : List Value) :
    ¬(listPredicate (.field field) part).MayFail := by
  match part with
  | [] => exact id
  | [v] => exact id
  | v :: w :: rest => exact id

def listed (b : Builder) (field : String) (values : List Value) : Group :=
  (b.nested.among field values).root

theorem root_among (b : Builder) (field : String) (values : List Value) :
    (b.among field values).root = b.root.join (b.listed field values) :=
  congrArg Builder.root (additive_among field values b)

def partPredicates (b : Builder) (field : String) (values : List Value) : List Predicate :=
  (chunks b.settings.listLimit values).map (listPredicate (.field field))

theorem leaves_partPredicates :
    (b.partPredicates field values).flatMap Predicate.leaves = b.partPredicates field values := by
  rw [partPredicates, List.flatMap_map]
  simp only [leaves_listPredicate, List.map_eq_flatMap]

theorem yes_mem_partPredicates (params : Parameters) (row : Row) (field : String)
    (values : List Value) (hlimit : 0 < b.settings.listLimit) :
    .yes ∈ (b.partPredicates field values).map (Predicate.meaning params row) ↔
      ∃ v ∈ values, (Row.value row field).compare? v = some .eq := by
  simp only [partPredicates, List.mem_map, exists_exists_and_eq_and, meaning_listPredicate,
    exists_mem_chunks hlimit]

theorem partPredicates_of_length_le (hne : values ≠ [])
    (hle : values.length ≤ b.settings.listLimit) :
    b.partPredicates field values = [listPredicate (.field field) values] := by
  rw [partPredicates, chunks_of_length_le hne hle]
  rfl

theorem listed_eq (hlimit : 0 < b.settings.listLimit) (hne : values ≠ []) :
    b.listed field values =
      if values.length ≤ b.settings.listLimit then .mk (b.partPredicates field values) []
      else .mk [] [.mk (b.partPredicates field values) []] := by
  have hempty : values.isEmpty = false := by simpa using hne
  have hmax : max 1 b.nested.settings.listLimit = b.settings.listLimit := Nat.max_eq_right hlimit
  by_cases hle : values.length ≤ b.settings.listLimit
  · simp only [listed, among, hempty, hmax, hle, if_true, partPredicates_of_length_le hne hle]
    rfl
  · simp only [listed, among, hempty, hmax, hle, if_false]
    rfl

theorem leaves_listed (hlimit : 0 < b.settings.listLimit) :
    (b.listed field values).leaves = b.partPredicates field values := by
  by_cases hne : values = []
  · subst hne
    rfl
  · rw [listed_eq hlimit hne]
    split <;> simp [Group.leaves, Group.members, Group.membersAll, leaves_partPredicates]

theorem truths_listed (params : Parameters) (row : Row) (field : String)
    (hlimit : 0 < b.settings.listLimit) (hne : values ≠ []) :
    ∃ t, (b.listed field values).truths (Predicate.meaning params row) = [t] ∧
      (t = .yes ↔ ∃ v ∈ values, (Row.value row field).compare? v = some .eq) := by
  rw [listed_eq hlimit hne]
  split
  · rename_i hle
    rw [partPredicates_of_length_le hne hle]
    exact ⟨_, rfl, meaning_listPredicate values⟩
  · have hempty : (Group.mk (b.partPredicates field values) []).isEmpty = false := by
      simp [Group.isEmpty, partPredicates, chunks_ne_nil hne]
    refine ⟨_, by rw [Group.truths_group, hempty]; rfl, ?_⟩
    rw [Truth.disj_eq_yes, ← yes_mem_partPredicates params row field values hlimit]
    simp [Group.truths, Group.truthsAll]

def wholeList (field : String) (values : List Value) : List Step :=
  if values.isEmpty then [] else [.push (.among (.field field) values)]

theorem gathered_single (start : Builder) (step : Step) :
    gathered start [step] = added start step := by
  rw [gathered, gathered, Group.join_empty]

theorem gathered_whole (hne : values ≠ []) :
    gathered b.nested (wholeList field values) = .mk [.among (.field field) values] [] := by
  have hempty : values.isEmpty = false := by simpa using hne
  simp only [wholeList, hempty, Bool.false_eq_true, if_false, gathered_single]
  rfl

theorem meaning_whole :
    (Predicate.among (.field field) values).meaning params row = .yes ↔
      ∃ v ∈ values, (Row.value row field).compare? v = some .eq :=
  Truth.among_eq_yes compare?_null

theorem exchange_list (hlimit : 0 < b.settings.listLimit) :
    (gathered b.nested [.among field values]).Exchange
      (gathered b.nested (wholeList field values)) := by
  by_cases hne : values = []
  · subst hne
    exact .refl _
  · have hlisted : gathered b.nested [.among field values] = b.listed field values :=
      gathered_single _ _
    rw [hlisted, gathered_whole hne]
    refine .of_single ?_ ?_ ?_
    · intro p hp
      rw [leaves_listed hlimit] at hp
      obtain ⟨part, -, rfl⟩ := List.mem_map.mp hp
      exact not_mayFail_listPredicate part
    · intro p hp
      rw [List.mem_singleton.mp hp]
      exact id
    · intro params row
      obtain ⟨t, ht, hyes⟩ := truths_listed params row field hlimit hne
      exact ⟨t, _, ht, rfl, hyes.trans meaning_whole.symm⟩

theorem accepts_list (hlimit : 0 < b.settings.listLimit) :
    (∀ step ∈ [.among field values], (perform step b.nested).1.Accepts params row) ↔
      ∀ step ∈ wholeList field values, (perform step b.nested).1.Accepts params row := by
  have hsplit : (perform (.among field values) b.nested).1.Accepts params row ↔
      (values ≠ [] → ∃ v ∈ values, (Row.value row field).compare? v = some .eq) := by
    have hgroup : ∀ steps, Step.among field values ≠ .group steps := nofun
    rw [perform_of_ok hgroup rfl]
    exact (accepts_among (b := b.nested) hlimit).trans (and_iff_right accepts_nested)
  rw [List.forall_mem_singleton, hsplit, wholeList]
  by_cases hne : values = []
  · simp [hne]
  · have hempty : values.isEmpty = false := by simpa using hne
    have hwhole : (perform (.push (.among (.field field) values)) b.nested).1.Accepts params row ↔
        ∃ v ∈ values, (Row.value row field).compare? v = some .eq := by
      have hgroup : ∀ steps, Step.push (.among (.field field) values) ≠ .group steps := nofun
      have hclosed : (Predicate.among (.field field) values).Closed params := trivial
      rw [perform_of_ok hgroup rfl, accepts_push hclosed, meaning_whole]
      exact and_iff_right accepts_nested
    simp only [hempty, Bool.false_eq_true, if_false, List.forall_mem_singleton, hwhole, hne, ne_eq,
      not_false_eq_true, true_implies]

theorem list_split (b : Builder) (hlimit : 0 < b.settings.listLimit) (field : String)
    (values : List Value) :
    (∃ (parts : List (List Value)) (g : Group), parts.flatten = values ∧
      (∀ part ∈ parts, part ≠ [] ∧ part.length ≤ b.settings.listLimit) ∧
      g.leaves = parts.map (listPredicate (.field field)) ∧
      ∀ c : Builder, c.nested = b.nested → (c.among field values).root = c.root.join g) ∧
    ∀ (place : Place) params row,
      let split := (b.performAll (place.fill [.among field values])).1.predicates
      let whole := (b.performAll (place.fill (wholeList field values))).1.predicates
      (∀ answer answer', acceptsOnce split params row = .ok answer →
        acceptsOnce whole params row = .ok answer' → answer = answer') ∧
      (place.Bound params b.nested (wholeList field values) →
        (acceptsOnce split params row = .ok true ↔ acceptsOnce whole params row = .ok true)) := by
  refine ⟨⟨chunks b.settings.listLimit values, b.listed field values, chunks_flatten hlimit values,
    fun part => of_mem_chunks hlimit, leaves_listed hlimit, ?_⟩, ?_⟩
  · intro c hc
    rw [root_among, listed, hc]
    rfl
  · intro place params row split whole
    have hexchange : (gathered b.nested [.among field values]).Exchange
        (gathered b.nested (wholeList field values)) := exchange_list hlimit
    refine ⟨fun answer answer' => answers_fill hexchange place, fun hbound => ?_⟩
    rw [acceptsOnce_eq_true, acceptsOnce_eq_true]
    exact accepts_fill hexchange (accepts_list hlimit) place hbound

section

def lists : Builder := ⟨.english, { listLimit := 2 }, .mk [.isNotNull (.field "name")] []⟩

def deepPlace : Place :=
  .inside [.compare "age" .ge (some (.int 1))]
    (.inside [.equalParameter "name" "named"] (.here [.isNull "age"] [.resolve]) [.resolve]) []

def deepRow : Row := .ofList [("name", .text "Ann"), ("age", .int 5)]

theorem list_split_deep :
    let params : Parameters := .ofList [("named", .text "Bob")]
    let values : List Value := [.int 1, .null, .int 3, .int 3, .int 5]
    0 < lists.settings.listLimit ∧
      deepPlace.Bound params lists.nested (wholeList "age" values) ∧
      acceptsOnce (lists.performAll (deepPlace.fill [.among "age" values])).1.predicates params
        deepRow = .ok true := by
  intro params values
  have hlimit : 0 < lists.settings.listLimit := by decide
  have hbound : deepPlace.Bound params lists.nested (wholeList "age" values) := by
    have hnames : Predicate.parameterNamesAll
        (lists.nested.performAll ((Place.inside [.equalParameter "name" "named"]
          (.here [.isNull "age"] [.resolve]) [.resolve]).fill
            (wholeList "age" values))).1.predicates = ["named"] := by decide +kernel
    intro name hname
    rw [hnames, List.mem_singleton] at hname
    subst hname
    decide +kernel
  have hsplit := (list_split lists hlimit "age" values).2 deepPlace params deepRow
  exact ⟨hlimit, hbound, (hsplit.2 hbound).mpr (by decide +kernel)⟩

theorem not_list_split_unbound :
    let place : Place := .inside [] (.here [] [.equalParameter "name" "named"]) []
    let values : List Value := [.int 1, .int 3, .int 5]
    acceptsOnce (lists.performAll (place.fill [.among "age" values])).1.predicates ∅ deepRow =
        .error (.unboundParameter "named") ∧
      acceptsOnce (lists.performAll (place.fill (wholeList "age" values))).1.predicates ∅ deepRow =
        .ok true := by
  decide +kernel

end

def limited (b : Builder) (limit : Nat) : Builder :=
  { b with settings := { b.settings with listLimit := limit } }

theorem closed_notListPredicate (part : List Value) :
    (notListPredicate (.field field) part).Closed params := by
  match part with
  | [] => trivial
  | [v] => exact ⟨v, rfl⟩
  | v :: w :: rest => trivial

theorem accepts_notAmong (hlimit : 0 < b.settings.listLimit) (hne : values ≠ []) :
    (b.notAmong field values).Accepts params row ↔ b.Accepts params row ∧
      ∀ part ∈ chunks b.settings.listLimit values,
        (notListPredicate (.field field) part).meaning params row = .yes := by
  have hempty : values.isEmpty = false := by simpa using hne
  have hmax : max 1 b.settings.listLimit = b.settings.listLimit := Nat.max_eq_right hlimit
  by_cases hle : values.length ≤ b.settings.listLimit
  · simp only [notAmong, hempty, hmax, hle, Bool.false_eq_true, if_false, if_true,
      chunks_of_length_le hne hle, List.forall_mem_singleton]
    exact accepts_push (closed_notListPredicate values)
  · simp only [notAmong, hempty, hmax, hle, Bool.false_eq_true, if_false]
    have hclosed : ∀ p ∈ (chunks b.settings.listLimit values).map
        (notListPredicate (.field field)), p.Closed params :=
      List.forall_mem_map.mpr fun part _ => closed_notListPredicate part
    rw [accepts_push (Predicate.closed_allOf hclosed), Predicate.meaning_allOf, Truth.conj_eq_yes,
      List.forall_mem_map, List.forall_mem_map]

theorem meaning_notListPredicate (part : List Value) :
    (notListPredicate (.field field) part).meaning params row = .yes ↔
      (Predicate.among (.field field) part).meaning params row = .no ∧
        ∀ v, part = [v] → (Row.value row field).compare? v ≠ none := by
  match part with
  | [] => simp [notListPredicate, Predicate.meaning, Truth.negate_eq_yes]
  | v :: w :: rest => simp [notListPredicate, Predicate.meaning, Truth.negate_eq_yes]
  | [v] =>
      have hne : (notListPredicate (.field field) [v]).meaning params row = .yes ↔
          ∃ c, (Row.value row field).compare? v = some c ∧ c ≠ .eq := by
        simp [notListPredicate, Predicate.meaning, Operand.value?, CompareOp.test,
          Truth.ofOrdering_eq_yes, CompareOp.holds, Expr.value]
      have hamong : (Predicate.among (.field field) [v]).meaning params row = .no ↔
          (Row.value row field).isNull = false ∧
            (Row.value row field).compare? v ≠ some .eq ∧ v.isNull = false := by
        rw [Predicate.meaning, Truth.among_eq_no, List.forall_mem_singleton]
        rfl
      rw [hne, hamong]
      constructor
      · rintro ⟨c, hc, hother⟩
        obtain ⟨hleft, hright⟩ := Value.not_isNull_of_compare? hc
        refine ⟨⟨hleft, fun h => hother (Option.some.inj (hc.symm.trans h)), hright⟩, ?_⟩
        intro w hw
        rw [← List.singleton_inj.mp hw, hc]
        exact Option.some_ne_none c
      · rintro ⟨⟨-, hother, -⟩, hcompares⟩
        obtain ⟨c, hc⟩ := Option.ne_none_iff_exists'.mp (hcompares v rfl)
        exact ⟨c, hc, fun h => hother (h ▸ hc)⟩

theorem among_parts_eq_no (hlimit : 0 < b.settings.listLimit) (hne : values ≠ []) :
    (∀ part ∈ chunks b.settings.listLimit values,
      (Predicate.among (.field field) part).meaning params row = .no) ↔
      (Predicate.among (.field field) values).meaning params row = .no := by
  simp only [Predicate.meaning, Truth.among_eq_no]
  conv_rhs => rw [← chunks_flatten hlimit values, List.forall_mem_flatten]
  constructor
  · intro h
    obtain ⟨part, hpart⟩ := List.exists_mem_of_ne_nil _ (chunks_ne_nil hne)
    exact ⟨(h part hpart).1, fun part hpart => (h part hpart).2⟩
  · rintro ⟨hnull, h⟩ part hpart
    exact ⟨hnull, h part hpart⟩

theorem accepts_exclusion (hlimit : 0 < b.settings.listLimit) (hne : values ≠ []) :
    (b.notAmong field values).Accepts params row ↔
      (b.push (.negate (.among (.field field) values))).Accepts params row ∧
        ∀ v, [v] ∈ chunks b.settings.listLimit values →
          (Row.value row field).compare? v ≠ none := by
  have hclosed : (Predicate.negate (.among (.field field) values)).Closed params := trivial
  have hnegate : (Predicate.negate (.among (.field field) values)).meaning params row = .yes ↔
      (Predicate.among (.field field) values).meaning params row = .no := Truth.negate_eq_yes
  rw [accepts_notAmong hlimit hne, accepts_push hclosed, hnegate, and_assoc]
  simp only [meaning_notListPredicate, forall₂_and, among_parts_eq_no hlimit hne]
  refine and_congr_right fun _ => and_congr_right fun _ => ?_
  exact ⟨fun h v hv => h [v] hv v rfl, fun h part hpart v hv => h v (hv ▸ hpart)⟩

theorem exclusion_split (b : Builder) (field : String) {values : List Value} (hne : values ≠ [])
    (params : Parameters) (row : Row) :
    let whole := acceptsOnce (b.push (.negate (.among (.field field) values))).predicates params row
    let split (limit : Nat) :=
      acceptsOnce ((b.limited limit).notAmong field values).predicates params row
    (∀ limit, 0 < limit → (split limit = .ok true ↔ whole = .ok true ∧
      ∀ v, [v] ∈ chunks limit values → (row.value field).compare? v ≠ none)) ∧
    ((∀ limit limit', 0 < limit → 0 < limit' →
      (split limit = .ok true ↔ split limit' = .ok true)) ↔
      ¬(whole = .ok true ∧ 2 ≤ values.length ∧
        ∃ v ∈ values, (row.value field).compare? v = none)) := by
  intro whole split
  have hsplit : ∀ limit, 0 < limit → (split limit = .ok true ↔ whole = .ok true ∧
      ∀ v, [v] ∈ chunks limit values → (row.value field).compare? v ≠ none) := by
    intro limit hlimit
    have hexclusion : ((b.limited limit).notAmong field values).Accepts params row ↔ _ :=
      accepts_exclusion hlimit hne
    simp only [split, whole, acceptsOnce_eq_true]
    exact hexclusion
  refine ⟨hsplit, ?_, ?_⟩
  · -- One limit leaves every value on its own, another one the list as it is.
    rintro hsame ⟨hwhole, hlength, v, hv, hnone⟩
    have hsingle : split values.length = .ok true := by
      rw [hsplit _ (by omega)]
      refine ⟨hwhole, fun w hw => ?_⟩
      rw [chunks_of_length_le hne (Nat.le_refl _), List.mem_singleton] at hw
      simp [← hw] at hlength
    have hone := (hsame _ 1 (by omega) Nat.one_pos).mp hsingle
    exact ((hsplit 1 Nat.one_pos).mp hone).2 v (singleton_mem_chunks_one hv) hnone
  · intro hnot limit limit' hlimit hlimit'
    rw [hsplit limit hlimit, hsplit limit' hlimit']
    refine and_congr_right fun hwhole => ?_
    by_cases hlength : 2 ≤ values.length
    · have hcompares : ∀ limit, 0 < limit → ∀ v, [v] ∈ chunks limit values →
          (row.value field).compare? v ≠ none :=
        fun limit hlimit v hv hnone =>
          hnot ⟨hwhole, hlength, v, mem_of_singleton_mem_chunks hlimit hv, hnone⟩
      exact iff_of_true (hcompares limit hlimit) (hcompares limit' hlimit')
    · rw [chunks_of_length_le hne (by omega), chunks_of_length_le hne (by omega)]

section

def ages : List Value := [.int 1, .int 2, .int 3]

theorem exclusion_split_flag :
    ages ≠ [] ∧ ∀ limit, 0 < limit →
      acceptsOnce ((lists.limited limit).notAmong "age" ages).predicates ∅
        (.ofList [("name", .text "Ann"), ("age", .bool false)]) = .ok true := by
  have hne : ages ≠ [] := List.cons_ne_nil _ _
  have hcompares : ∀ v ∈ ages, (Row.value (.ofList [("name", .text "Ann"), ("age", .bool false)])
      "age").compare? v ≠ none := by decide +kernel
  have hsplit := (exclusion_split lists "age" hne ∅
    (.ofList [("name", .text "Ann"), ("age", .bool false)])).1
  refine ⟨hne, fun limit hlimit => (hsplit limit hlimit).mpr ⟨by decide +kernel, ?_⟩⟩
  exact fun v hv => hcompares v (mem_of_singleton_mem_chunks hlimit hv)

theorem not_exclusion_split_text :
    let row : Row := .ofList [("name", .text "Ann"), ("age", .text "n/a")]
    acceptsOnce (lists.push (.negate (.among (.field "age") ages))).predicates ∅ row = .ok true ∧
      acceptsOnce ((lists.limited 3).notAmong "age" ages).predicates ∅ row = .ok true ∧
      acceptsOnce ((lists.limited 2).notAmong "age" ages).predicates ∅ row = .ok false := by
  decide +kernel

end

end Builder

end RecordQuery
