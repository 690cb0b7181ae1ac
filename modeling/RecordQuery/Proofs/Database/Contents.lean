import RecordQuery.Proofs.Database.Writing

namespace RecordQuery.Database

variable {layouts : List Layout} {c : Contents} {t : Table} {l : Layout}

structure Schema (layouts : List Layout) : Prop where
  proper : ∀ l ∈ layouts, l.Proper
  distinct : (layouts.map (folded ·.name)).Nodup
  apart : ∀ l ∈ layouts, folded l.name ≠ folded sequences.name ∧
    folded l.name ≠ folded counters.name

def Calls (layouts : List Layout) (name : String) : Prop :=
  ∀ l ∈ sequences :: counters :: layouts, folded l.name = folded name → l ∈ layouts ∧ l.name = name

namespace Contents

def record? (c : Contents) (name : String) (id : Int64) : Option Record :=
  (c.tables.get? (folded name)).bind (·.records.get? id)

structure Fits (layouts : List Layout) (c : Contents) : Prop where
  table : ∀ l ∈ layouts, ∃ t, c.tables.get? (folded l.name) = some t ∧ t.layout = l ∧
    ∀ e ∈ t.entries, ∀ column ∈ l.columns, column.Holds (e.column column)
  listed : ∀ key t, c.tables.get? key = some t →
    key = folded t.layout.name ∧ t.layout ∈ sequences :: counters :: layouts

structure Writes (layouts : List Layout) (before after : Contents) (name : String) (id : Int64)
    (record : Record) : Prop where
  fits : after.Fits layouts
  here : after.record? name id = some record
  elsewhere : ∀ l ∈ layouts, ∀ i, ¬(l.name = name ∧ i = id) →
    after.record? l.name i = before.record? l.name i

theorem get?_put (c : Contents) (t : Table) (key : String) :
    (c.put t).tables.get? key =
      if key = folded t.layout.name then some t else c.tables.get? key :=
  Keyed.get?_put ..

end Contents

theorem Schema.eq_of_folded (h : Schema layouts) {l l' : Layout} (hl : l ∈ layouts)
    (hl' : l' ∈ layouts) (hname : folded l.name = folded l'.name) : l = l' :=
  List.inj_on_of_nodup_map h.distinct hl hl' hname

namespace Contents

theorem Fits.put (h : c.Fits layouts) (hs : Schema layouts) (hl : t.layout ∈ layouts)
    (hholds : ∀ e ∈ t.entries, ∀ column ∈ t.layout.columns, column.Holds (e.column column)) :
    (c.put t).Fits layouts := by
  refine ⟨?_, ?_⟩
  · intro l hl'
    rw [get?_put]
    split
    · rename_i hname
      obtain rfl := hs.eq_of_folded hl' hl hname
      exact ⟨t, rfl, rfl, hholds⟩
    · exact h.table l hl'
  · intro key t' hget
    rw [get?_put] at hget
    split at hget
    · obtain rfl := Option.some.inj hget
      exact ⟨‹_›, List.mem_cons_of_mem _ (List.mem_cons_of_mem _ hl)⟩
    · exact h.listed key t' hget

theorem record?_put (hs : Schema layouts) (hl : l ∈ layouts) (ht : t.layout ∈ layouts)
    (id : Int64) :
    (c.put t).record? l.name id =
      if l = t.layout then t.records.get? id else c.record? l.name id := by
  rw [record?, get?_put]
  by_cases h : l = t.layout
  · subst h
    simp
  · rw [if_neg h, if_neg fun hname => h (hs.eq_of_folded hl ht hname)]
    rfl

theorem Fits.put_counters (h : c.Fits layouts) (hs : Schema layouts) (ht : t.layout = counters) :
    (c.put t).Fits layouts ∧
      ∀ l ∈ layouts, ∀ id, (c.put t).record? l.name id = c.record? l.name id := by
  have hget : ∀ l ∈ layouts,
      (c.put t).tables.get? (folded l.name) = c.tables.get? (folded l.name) := by
    intro l hl
    rw [get?_put, if_neg]
    rw [ht]
    exact (hs.apart l hl).2
  refine ⟨⟨?_, ?_⟩, ?_⟩
  · intro l hl
    rw [hget l hl]
    exact h.table l hl
  · intro key t' hput
    rw [get?_put] at hput
    split at hput
    · obtain rfl := Option.some.inj hput
      refine ⟨‹_›, ?_⟩
      rw [ht]
      exact List.mem_cons_of_mem _ (List.mem_cons_self ..)
    · exact h.listed key t' hput
  · intro l hl id
    rw [record?, record?, hget l hl]

theorem get?_of_table? {name : String} (h : c.table? name = .ok t) :
    c.tables.get? (folded name) = some t := by
  unfold table? at h
  split at h
  · rename_i t' hget
    rw [hget, Except.ok.inj h]
  · cases h

theorem Fits.layout_of_table? (h : c.Fits layouts) {name : String} (hname : Calls layouts name)
    (ht : c.table? name = .ok t) :
    c.tables.get? (folded name) = some t ∧ t.layout ∈ layouts ∧ t.layout.name = name := by
  have hget := get?_of_table? ht
  obtain ⟨hkey, hlisted⟩ := h.listed _ t hget
  exact ⟨hget, hname t.layout hlisted hkey.symm⟩

theorem Fits.holds (h : c.Fits layouts) {key : String} (hget : c.tables.get? key = some t)
    (hl : t.layout ∈ layouts) :
    ∀ e ∈ t.entries, ∀ column ∈ t.layout.columns, column.Holds (e.column column) := by
  obtain ⟨t', hget', -, hholds⟩ := h.table _ hl
  rw [(h.listed key t hget).1, hget'] at hget
  obtain rfl := Option.some.inj hget
  exact hholds

theorem Fits.layout_counters (h : c.Fits layouts) (hs : Schema layouts)
    (hget : c.tables.get? counters.name = some t) : t.layout = counters := by
  have hself : folded counters.name = counters.name := by decide
  obtain ⟨hkey, hlisted⟩ := h.listed _ t hget
  rcases List.mem_cons.mp hlisted with hl | hl
  · have hne : counters.name ≠ folded sequences.name := by decide
    rw [hl] at hkey
    exact absurd hkey hne
  · rcases List.mem_cons.mp hl with hl | hl
    · exact hl
    · exact absurd (hkey.symm.trans hself.symm) (hs.apart _ hl).2

theorem raiseCounter_cases (c : Contents) (name : String) (number : Int64) :
    c.raiseCounter name number = c ∨ ∃ t written, c.tables.get? counters.name = some t ∧
      written.layout = t.layout ∧ c.raiseCounter name number = c.put written := by
  unfold Contents.raiseCounter
  split
  · exact .inl rfl
  · rename_i t hget
    simp only
    split
    · rename_i written hwritten
      refine .inr ⟨t, written, hget, ?_, rfl⟩
      split at hwritten
      · obtain ⟨⟨n, t'⟩, hinsert, rfl⟩ := map_eq_ok.mp hwritten
        rw [(Table.insert_eq_ok hinsert).2.2]
        rfl
      · split at hwritten
        · rw [Except.ok.inj hwritten]
        · obtain ⟨new, -, rfl⟩ := Table.replace_eq_ok hwritten
          rfl
    · exact .inl rfl

theorem Fits.raiseCounter (h : c.Fits layouts) (hs : Schema layouts) (name : String)
    (number : Int64) :
    (c.raiseCounter name number).Fits layouts ∧
      ∀ l ∈ layouts, ∀ id, (c.raiseCounter name number).record? l.name id =
        c.record? l.name id := by
  rcases c.raiseCounter_cases name number with hsame | ⟨t, written, hget, hlayout, hput⟩
  · rw [hsame]
    exact ⟨h, fun _ _ _ => rfl⟩
  · rw [hput]
    exact h.put_counters hs (hlayout.trans (h.layout_counters hs hget))

theorem Fits.writes_put (h : c.Fits layouts) (hs : Schema layouts)
    (hget : c.tables.get? (folded t.layout.name) = some t) (hl : t.layout ∈ layouts) (n : Int64)
    {record : Record}
    (hholds : ∀ column ∈ t.layout.columns, column.Holds ((Entry.mk n record).column column)) :
    Writes layouts c (c.put (t.put ⟨n, record⟩)) t.layout.name n record := by
  have hput : (t.put ⟨n, record⟩).layout ∈ layouts := hl
  refine ⟨h.put hs hput ?_, ?_, ?_⟩
  · intro e he
    rw [Table.mem_entries] at he
    change (t.records.put n record).get? e.number = some e.record at he
    rw [Keyed.get?_put] at he
    split at he
    · rename_i hn
      obtain ⟨number, r⟩ := e
      obtain rfl := Option.some.inj he
      exact hholds
    · exact h.holds hget hl e (Table.mem_entries.mpr he)
  · rw [record?_put hs hl hput, if_pos (show t.layout = (t.put ⟨n, record⟩).layout from rfl)]
    exact (Keyed.get?_put ..).trans (if_pos rfl)
  · intro l hl' i hne
    rw [record?_put hs hl' hput]
    split
    · rename_i heq
      obtain rfl : l = t.layout := heq
      have hi : i ≠ n := fun hi => hne ⟨rfl, hi⟩
      rw [record?, hget]
      exact (Keyed.get?_put ..).trans (if_neg hi)
    · rfl

end Contents

theorem Contents.Writes.raiseCounter {before after : Contents} {name : String} {n : Int64}
    {record : Record} (h : Writes layouts before after name n record) (hs : Schema layouts)
    (hname : ∃ l ∈ layouts, l.name = name) (lasting : String) (number : Int64) :
    Writes layouts before (after.raiseCounter lasting number) name n record := by
  obtain ⟨hfits, hsame⟩ := h.fits.raiseCounter hs lasting number
  obtain ⟨l, hl, rfl⟩ := hname
  refine ⟨hfits, (hsame l hl n).trans h.here, ?_⟩
  intro l' hl' i hne
  rw [hsame l' hl']
  exact h.elsewhere l' hl' i hne

namespace Session

variable {s after : Session} {name : String} {row : Row}

theorem insert_eq_ok {cells : Cells} {n : Int64} (h : s.insert name cells = .ok (n, after)) :
    ∃ t written, s.contents.table? name = .ok t ∧
      t.insert name (s.contents.counter t.layout.name) s.contents.draws cells = .ok (n, written) ∧
      after.saved = s.saved ∧
      after.contents = if written.layout.lasting then
        (s.contents.put written).raiseCounter written.layout.name n
      else s.contents.put written := by
  simp only [insert, bind_eq_ok] at h
  obtain ⟨-, -, -, -, h⟩ := h
  split at h
  · cases h
  · simp only [bind_eq_ok] at h
    obtain ⟨t, ht, ⟨number, written⟩, hinsert, h⟩ := h
    obtain ⟨rfl, rfl⟩ := Prod.mk.inj (Except.ok.inj h)
    exact ⟨t, written, ht, hinsert, rfl, rfl⟩

theorem writes_of_insert (hs : Schema layouts) (hfits : s.contents.Fits layouts)
    (hname : Calls layouts name) (hrow : ∀ l ∈ layouts, l.name = name → l.Suits row) {n : Int64}
    (h : s.insert name (Relational.cellsOf row) = .ok (n, after)) :
    after.saved = s.saved ∧ ∃ l ∈ layouts, l.name = name ∧
      (∀ column v, row.get? column = some v → l.place? column ≠ none) ∧
      (∀ id, row.get? Row.idColumn = some (.int id) → n = id) ∧
      Contents.Writes layouts s.contents after.contents name n (l.filled row Column.initial) := by
  obtain ⟨t, written, ht, hinsert, hsaved, hcontents⟩ := insert_eq_ok h
  obtain ⟨hget, hl, rfl⟩ := hfits.layout_of_table? hname ht
  have hproper := hs.proper _ hl
  have hsuits := hrow _ hl rfl
  obtain ⟨hknown, hnumber, rfl⟩ :=
    Table.insert_cellsOf hproper.regular (fun x hx => hsuits.exact hproper hx) hinsert
  have hwrites := hfits.writes_put hs hget hl n fun column hcolumn =>
    hsuits.holds hproper hcolumn n (hproper.initial column hcolumn)
  refine ⟨hsaved, t.layout, hl, rfl, hknown, ?_, ?_⟩
  · intro id hid
    rw [Table.numberOf_cellsOf hproper.regular (fun _ => hsuits.number) hid] at hnumber
    exact (Except.ok.inj hnumber).symm
  · rw [hcontents]
    split
    · exact hwrites.raiseCounter hs ⟨_, hl, rfl⟩ _ _
    · exact hwrites

theorem update_eq_ok {id : Int64} {expected : Option Int64} {cells : Cells} {done : Bool}
    (h : s.update name id expected cells = .ok (done, after)) :
    ∃ t written, s.contents.table? name = .ok t ∧
      t.update (aim id expected) (expected.map fun _ => Row.versionColumn) cells =
        .ok (done, written) ∧ after = { s with contents := s.contents.put written } := by
  simp only [update, bind_eq_ok] at h
  obtain ⟨-, -, -, -, t, ht, ⟨done', written⟩, hupdate, h⟩ := h
  obtain ⟨rfl, rfl⟩ := Prod.mk.inj (Except.ok.inj h)
  exact ⟨t, written, ht, hupdate, rfl⟩

theorem writes_of_update (hs : Schema layouts) (hfits : s.contents.Fits layouts)
    (hname : Calls layouts name) {id : Int64} {expected : Option Int64}
    (hrow : ∀ l ∈ layouts, l.name = name → ∀ column v, (bare row).get? column = some v →
      l.Takes column v)
    (hexpected : expected ≠ some Int64.maxValue) {done : Bool}
    (h : s.update name id expected (Relational.assigned row) = .ok (done, after)) :
    after.saved = s.saved ∧ ((done = false ∧ after.contents = s.contents) ∨
      done = true ∧ ∃ l ∈ layouts, l.name = name ∧
        (∀ column v, (renewed row expected).get? column = some v → l.place? column ≠ none) ∧
        ∃ rest, Contents.Writes layouts s.contents after.contents name id
          (l.filled (renewed row expected) rest)) := by
  obtain ⟨t, written, ht, hupdate, rfl⟩ := update_eq_ok h
  obtain ⟨hget, hl, rfl⟩ := hfits.layout_of_table? hname ht
  have hproper := hs.proper _ hl
  have hholds := hfits.holds hget hl
  refine ⟨rfl, ?_⟩
  rcases Table.update_aim hproper hholds (hrow _ hl rfl) hexpected hupdate with
    ⟨rfl, rfl⟩ | ⟨rfl, record, hrecord, hknown, rfl⟩
  · refine .inl ⟨rfl, ?_⟩
    have hsame := Keyed.put_get? hget
    rw [Contents.put, hsame]
  · refine .inr ⟨rfl, t.layout, hl, rfl, hknown, _, hfits.writes_put hs hget hl id ?_⟩
    intro column hcolumn
    refine (hproper.suits_renewed (hrow _ hl rfl) expected).holds hproper hcolumn id ?_
    have hcell := hholds ⟨id, record⟩ (Table.mem_entries.mpr hrecord) column hcolumn
    rw [hcell.kept]
    exact hcell

end Session

theorem found_byId (hl : t.layout.Regular) (entity : String) (projection : Projection)
    (id : Int64) :
    found t (Relational.byId entity projection id) =
      ((t.records.get? id).map (Entry.mk id)).toList := by
  have hfilter : t.records.entries.filter (fun x => satisfies t.layout ⟨x.1, x.2⟩
      (Relational.byId entity projection id).conditions) =
        ((t.records.get? id).map (id, ·)).toList := by
    refine Keyed.filter_entries fun x _ => ?_
    have hnil : satisfies t.layout ⟨x.1, x.2⟩ [] = true := rfl
    change satisfies t.layout ⟨x.1, x.2⟩ [.compare (.field Row.idColumn) .eq (.int id)] = true ↔ _
    rw [satisfies_cons, and_iff_left hnil, truth_equal_id hl]
  have hperm := found_perm t (Relational.byId entity projection id)
  rw [Table.entries, List.filter_map, Function.comp_def, hfilter] at hperm
  cases h : t.records.get? id with
  | none =>
      rw [h] at hperm
      exact hperm.eq_nil
  | some record =>
      rw [h] at hperm
      exact List.perm_singleton.mp hperm

theorem answers_byId {α : Type} [BEq α] (hl : t.layout.Regular) (entity : String)
    (projection : Projection) (id : Int64) (answer : Entry → α) :
    answers t (Relational.byId entity projection id) answer =
      ((t.records.get? id).map fun record => answer ⟨id, record⟩).toList := by
  rw [answers, found_byId hl]
  cases t.records.get? id <;> rfl

theorem table?_of_checks {s : Session} {selection : Sql.Select}
    (h : checkSelect selection = .ok ()) (ht : s.contents.table? selection.table = .ok t) :
    s.select selection = .ok t := by
  rw [Session.select, h]
  exact ht

theorem checkName_of_plain {name : String} (h : '\x00' ∉ name.toList) :
    checkName name = .ok () := by
  rw [checkName, if_neg]
  simpa using h

theorem plain_of_checkName {name : String} (h : checkName name = .ok ()) :
    '\x00' ∉ name.toList := by
  intro hmem
  rw [checkName, if_pos (by simpa using hmem)] at h
  cases h

theorem checkConditions_byId (id : Int64) :
    checkConditions [.compare (.field Row.idColumn) .eq (.int id)] = .ok () :=
  rfl

theorem checkSelect_byId {name : String} (hname : '\x00' ∉ name.toList) {projection : Projection}
    (hprojection : checkTarget projection = .ok ()) (id : Int64) :
    checkSelect (Relational.byId name projection id) = .ok () := by
  unfold checkSelect
  rw [Relational.byId, hprojection, checkName_of_plain hname, checkConditions_byId]
  cases projection <;> rfl

theorem Contents.Fits.select_byId {s : Session} (hs : Schema layouts)
    (h : s.contents.Fits layouts) (hl : l ∈ layouts) (projection : Projection)
    (hprojection : checkTarget projection = .ok ()) (id : Int64) :
    ∃ t, s.select (Relational.byId l.name projection id) = .ok t ∧ t.layout = l ∧
      t.records.get? id = s.contents.record? l.name id ∧
      ∀ e ∈ t.entries, ∀ column ∈ l.columns, column.Holds (e.column column) := by
  obtain ⟨t, hget, hlayout, hholds⟩ := h.table l hl
  have htable : s.contents.table? l.name = .ok t := by
    rw [Contents.table?, hget]
  have hchecks := checkSelect_byId (hs.proper l hl).plain hprojection id
  refine ⟨t, table?_of_checks hchecks htable, hlayout, ?_, hholds⟩
  rw [Contents.record?, hget]
  rfl

theorem fits_ofLayouts (hs : Schema layouts) (draws : List Int64) :
    (Contents.ofLayouts layouts draws).Fits layouts := by
  let named (l : Layout) : String × Table := (folded l.name, ⟨l, .empty⟩)
  have htables : (Contents.ofLayouts layouts draws).tables =
      Keyed.ofList ((sequences :: counters :: layouts).map named) := by
    rw [Keyed.ofList, List.foldl_map]
    exact (List.foldl_hom Contents.tables fun _ _ => rfl).symm
  have hnodup : (((sequences :: counters :: layouts).map named).map (·.1)).Nodup := by
    have hne : folded sequences.name ≠ folded counters.name := by decide
    have hapart : ∀ l ∈ layouts, folded l.name ≠ folded sequences.name ∧
        folded l.name ≠ folded counters.name := hs.apart
    rw [List.map_map, List.map_cons, List.map_cons, List.nodup_cons, List.nodup_cons]
    refine ⟨?_, ?_, hs.distinct⟩
    · rw [List.mem_cons, not_or]
      refine ⟨hne, ?_⟩
      rintro hmem
      obtain ⟨l, hl, heq⟩ := List.mem_map.mp hmem
      exact (hapart l hl).1 heq
    · rintro hmem
      obtain ⟨l, hl, heq⟩ := List.mem_map.mp hmem
      exact (hapart l hl).2 heq
  refine ⟨?_, ?_⟩
  · intro l hl
    refine ⟨⟨l, .empty⟩, ?_, rfl, ?_⟩
    · rw [htables]
      refine Keyed.get?_ofList_of_mem hnodup ?_
      exact List.mem_map_of_mem (List.mem_cons_of_mem _ (List.mem_cons_of_mem _ hl))
    · rintro e ⟨⟩
  · intro key t hget
    rw [htables] at hget
    obtain ⟨l, hl, heq⟩ := List.mem_map.mp (Keyed.mem_of_get?_ofList hget)
    obtain ⟨rfl, rfl⟩ := Prod.mk.inj heq
    exact ⟨rfl, hl⟩

end RecordQuery.Database

namespace RecordQuery.Relational

open RecordQuery.Database

variable {layouts : List Layout} {l : Layout} {s : Relational}

theorem rowOfCells_map {names : List String} {cell : String → Cell}
    (h : ∀ name ∈ names, ∃ v, (cell name).value? = .ok v) :
    ∃ row, rowOfCells (names.zip (names.map cell)) = .ok row ∧
      (∀ name ∈ names, row.contains name) ∧
      ∀ name v, row.get? name = some v → name ∈ names ∧ (cell name).value? = .ok v := by
  induction names with
  | nil => exact ⟨.empty, rfl, by simp, by rintro name v ⟨⟩⟩
  | cons first rest ih =>
      obtain ⟨⟨u, hu⟩, hrest⟩ := List.forall_mem_cons.mp h
      obtain ⟨row, hrow, hnames, hvalues⟩ := ih hrest
      refine ⟨row.put first u, ?_, ?_, ?_⟩
      · rw [List.map_cons, List.zip_cons_cons, rowOfCells, hu, hrow]
      · intro name hname
        rw [Keyed.contains, Keyed.get?_put]
        split
        · rfl
        · rename_i hne
          exact hnames name ((List.mem_cons.mp hname).resolve_left hne)
      · intro name v hv
        rw [Keyed.get?_put] at hv
        split at hv
        · rename_i hname
          rw [hname, ← Option.some.inj hv]
          exact ⟨List.mem_cons_self .., hu⟩
        · exact (hvalues name v hv).imp_left (List.mem_cons_of_mem _)

theorem storageForm_of_value? {cell : Cell} {v : Value} (h : cell.value? = .ok v) :
    v.Tells ∧ v.storageForm = v := by
  cases cell <;> cases h <;> exact ⟨trivial, rfl⟩

theorem rowOf_rowCells (hl : l.Proper) {e : Entry} (hholds : ∀ c ∈ l.columns, c.Holds (e.column c))
    (entity : String) :
    ∃ row, rowOf entity l (rowCells l e) = .ok row ∧ l.IsWhole row ∧ l.Agrees e row := by
  have hreads : ∀ name ∈ l.names, ∃ v, (cellOf l e (.field name)).value? = .ok v := by
    intro name hname
    rcases hl.regular.mem_names.mp hname with rfl | ⟨c, hc, rfl⟩
    · exact ⟨_, congrArg Cell.value? (hl.regular.cellOf_id e)⟩
    · rw [hl.regular.cellOf_column hc]
      exact (hholds c hc).reads
  obtain ⟨row, hrow, hwhole, hvalues⟩ := rowOfCells_map hreads
  refine ⟨row, ?_, hwhole, ?_⟩
  · rw [rowOf, rowCells, hrow]
  · intro name v hv
    obtain ⟨hname, hvalue⟩ := hvalues name v hv
    obtain ⟨htells, hform⟩ := storageForm_of_value? hvalue
    exact ⟨hname, htells, hform.symm ▸ hvalue⟩

theorem searched_byId (t : Table) (entity : String) (projection : Projection) (id : Int64) :
    searched t (byId entity projection id) = .ok t := by
  have hnone : t.fault? (byId entity projection id).conditions = none :=
    List.findSome?_eq_none_iff.mpr fun _ _ => rfl
  rw [searched, hnone]

section

variable {t : Table} {entity : String} {id : Int64} (hl : t.layout.Regular)

include hl

theorem rowsOf_of_select (h : s.session.select (byId entity .rows id) = .ok t) :
    rowsOf entity (byId entity .rows id) s = ((t.records.get? id).map fun record =>
      rowCells t.layout ⟨id, record⟩).toList.mapM (rowOf entity t.layout) := by
  rw [rowsOf, h]
  simp only [searched_byId, bind, Except.bind]
  rw [foundRows, answers_byId hl]

theorem valuesOf_of_select {name : String}
    (h : s.session.select (byId entity (.column name) id) = .ok t) :
    valuesOf (byId entity (.column name) id) name s = ((t.records.get? id).map fun record =>
      cellOf t.layout ⟨id, record⟩ (.field name)).toList.mapM valueOf := by
  rw [valuesOf, tableOf, h]
  simp only [searched_byId, bind, Except.bind]
  rw [foundCells, answers_byId hl]

end

theorem rowsOf_byId (hs : Schema layouts) (h : s.session.contents.Fits layouts) (hl : l ∈ layouts)
    (id : Int64) :
    (s.session.contents.record? l.name id = none ∧
        rowsOf l.name (byId l.name .rows id) s = .ok []) ∨
      ∃ record row, s.session.contents.record? l.name id = some record ∧
        rowsOf l.name (byId l.name .rows id) s = .ok [row] ∧ l.IsWhole row ∧
        l.Agrees ⟨id, record⟩ row := by
  have hproper := hs.proper l hl
  obtain ⟨t, hselect, rfl, hget, hholds⟩ := h.select_byId hs hl .rows rfl id
  rw [rowsOf_of_select hproper.regular hselect, ← hget]
  cases hrecord : t.records.get? id with
  | none => exact .inl ⟨rfl, rfl⟩
  | some record =>
      have he : (⟨id, record⟩ : Entry) ∈ t.entries := Table.mem_entries.mpr hrecord
      obtain ⟨row, hrow, hwhole, hagrees⟩ := rowOf_rowCells hproper (hholds _ he) t.layout.name
      refine .inr ⟨record, row, rfl, ?_, hwhole, hagrees⟩
      rw [Option.map_some, Option.toList_some, List.mapM_cons, List.mapM_nil, hrow]
      rfl

theorem rowExists_of_select {t : Table} (hl : t.layout.Regular) {entity : String} {id : Int64}
    (h : s.session.select (byId entity (.column Row.idColumn) id) = .ok t) :
    rowExists entity id s = .ok (t.records.get? id).isSome := by
  rw [rowExists, valuesOf_of_select hl h]
  simp only [hl.cellOf_id]
  cases t.records.get? id <;> rfl

theorem rowExists_eq (hs : Schema layouts) (h : s.session.contents.Fits layouts) (hl : l ∈ layouts)
    (id : Int64) :
    rowExists l.name id s = .ok (s.session.contents.record? l.name id).isSome := by
  have hproper := hs.proper l hl
  obtain ⟨t, hselect, rfl, hget, -⟩ := h.select_byId hs hl (.column Row.idColumn) rfl id
  rw [rowExists_of_select hproper.regular hselect, hget]

end RecordQuery.Relational
