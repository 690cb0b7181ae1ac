import RecordQuery.Proofs.Database.Versions

namespace RecordQuery.Database

theorem Layout.Regular.place?_of_mem {l : Layout} (hl : l.Regular) {name : String}
    (hname : name ∈ l.names) : l.place? name ≠ none := by
  rcases hl.mem_names.mp hname with rfl | ⟨c, hc, rfl⟩
  · rw [hl.place?_id]
    exact nofun
  · rw [hl.place?_column hc]
    exact nofun

theorem Layout.Regular.plain_cellsOf {l : Layout} (hl : l.Regular)
    (hplain : ∀ c ∈ l.columns, '\x00' ∉ c.name.toList) {row : Row}
    (hrow : ∀ name v, row.get? name = some v → name ∈ l.names) :
    ∀ x ∈ Relational.cellsOf row, '\x00' ∉ x.1.toList := by
  intro x hx
  obtain ⟨y, hy, rfl⟩ := List.mem_map.mp hx
  rcases hl.mem_names.mp (hrow y.1 y.2 (Keyed.mem_entries_iff.mp hy)) with hid | ⟨c, hc, hname⟩
  · change '\x00' ∉ y.1.toList
    rw [hid]
    decide
  · exact hname ▸ hplain c hc

theorem Layout.stranger?_eq_none {l : Layout} {names : List String}
    (h : ∀ name ∈ names, l.place? name ≠ none) : l.stranger? names = none := by
  refine List.find?_eq_none.mpr fun name hname => ?_
  rw [Option.isNone_iff_eq_none]
  exact h name hname

namespace Table

structure Allows (t : Table) (e : Entry) : Prop where
  required : ∀ c ∈ t.layout.columns, c.required = true → (e.column c).isNull = false
  unique : ∀ c ∈ t.layout.columns, c.unique = true → ∀ o ∈ t.entries, o.number ≠ e.number →
    (e.column c).compare? (o.column c) ≠ some .eq

instance (t : Table) (e : Entry) : Decidable (t.Allows e) :=
  decidable_of_iff
    ((∀ c ∈ t.layout.columns, c.required = true → (e.column c).isNull = false) ∧
      ∀ c ∈ t.layout.columns, c.unique = true → ∀ o ∈ t.entries, o.number ≠ e.number →
        (e.column c).compare? (o.column c) ≠ some .eq)
    ⟨fun h => ⟨h.1, h.2⟩, fun h => ⟨h.required, h.unique⟩⟩

variable {t rest : Table} {e new : Entry} {row : Row} {id : Int64} {expected : Option Int64}

theorem check_eq_put (h : t.Allows e) {others : List Entry} (hlayout : rest.layout = t.layout)
    (hothers : ∀ o ∈ others, o ∈ t.entries ∧ o.number ≠ e.number) :
    rest.check others e = .ok (rest.put e) := by
  have hrequired : rest.layout.columns.find? (fun c => c.required && (e.column c).isNull) =
      none := by
    refine List.find?_eq_none.mpr fun c hc => ?_
    rw [Bool.and_eq_true, not_and, Bool.not_eq_true]
    exact h.required c (hlayout ▸ hc)
  have hnumber : others.any (·.number == e.number) = false := by
    refine List.any_eq_false.mpr fun o ho => ?_
    rw [beq_iff_eq]
    exact (hothers o ho).2
  have hunique : rest.layout.columns.find? (fun c => c.unique && repeats others e c) = none := by
    refine List.find?_eq_none.mpr fun c hc => ?_
    rw [Bool.and_eq_true, not_and, repeats, Bool.not_eq_true, List.any_eq_false]
    intro hc' o ho
    rw [beq_iff_eq]
    exact h.unique c (hlayout ▸ hc) hc' o (hothers o ho).1 (hothers o ho).2
  rw [check, hrequired]
  simp only
  rw [hnumber, if_neg Bool.false_ne_true, hunique]

theorem replace_eq_put {cells : Cells} (hchanged : t.changed e cells = .ok new)
    (hnumber : new.number = e.number) (h : t.Allows new) : t.replace e cells = .ok (t.put new) := by
  have hothers : ∀ o ∈ ({ t with records := t.records.erase e.number } : Table).entries,
      o ∈ t.entries ∧ o.number ≠ new.number := by
    intro o ho
    rw [mem_entries] at ho ⊢
    change (t.records.erase e.number).get? o.number = some o.record at ho
    rw [Keyed.get?_erase] at ho
    split at ho
    · cases ho
    · rename_i hne
      exact ⟨ho, hnumber ▸ hne⟩
  have hcheck : ({ t with records := t.records.erase e.number } : Table).check _ new = _ :=
    check_eq_put h rfl hothers
  rw [replace, hchanged]
  refine hcheck.trans ?_
  rw [put, put, hnumber, Keyed.put_erase]

section

variable (hl : t.layout.Regular)
  (hversion : expected.isSome → ∃ c ∈ t.layout.columns, c.name = Row.versionColumn ∧
    c.affinity ≠ .text ∧ ∀ e ∈ t.entries, e.column c = .null ∨ ∃ n, e.column c = .int n)

include hl hversion

theorem satisfies_aim_of_mem (he : e ∈ t.entries) :
    satisfies t.layout e (Session.aim id expected) = true ↔ e.number = id ∧
      ∀ m, expected = some m → cellOf t.layout e (.field Row.versionColumn) = .int m := by
  refine satisfies_aim hl fun hsome => ?_
  obtain ⟨c, hc, hname, haffinity, hkind⟩ := hversion hsome
  exact ⟨c, hc, hname, haffinity, hkind e he⟩

theorem find?_aim_eq_none (h : ∀ record, t.records.get? id = some record →
      ∃ m, expected = some m ∧ cellOf t.layout ⟨id, record⟩ (.field Row.versionColumn) ≠ .int m) :
    t.entries.find? (fun e => satisfies t.layout e (Session.aim id expected)) = none := by
  refine List.find?_eq_none.mpr fun e he hsat => ?_
  obtain ⟨rfl, hcell⟩ := (satisfies_aim_of_mem hl hversion he).mp hsat
  obtain ⟨m, hm, hne⟩ := h e.record (mem_entries.mp he)
  exact hne (hcell m hm)

theorem find?_aim_eq_some {record : Record} (hrecord : t.records.get? id = some record)
    (hcell : ∀ m, expected = some m →
      cellOf t.layout ⟨id, record⟩ (.field Row.versionColumn) = .int m) :
    t.entries.find? (fun e => satisfies t.layout e (Session.aim id expected)) =
      some ⟨id, record⟩ := by
  have hmem : (⟨id, record⟩ : Entry) ∈ t.entries := mem_entries.mpr hrecord
  cases hfind : t.entries.find? (fun e => satisfies t.layout e (Session.aim id expected)) with
  | none =>
      have hsat := (satisfies_aim_of_mem hl hversion hmem).mpr ⟨rfl, hcell⟩
      exact absurd hsat (List.find?_eq_none.mp hfind _ hmem)
  | some e =>
      have he := List.mem_of_find?_eq_some hfind
      have hsat : satisfies t.layout e (Session.aim id expected) = true := by
        simpa using List.find?_some hfind
      obtain ⟨rfl, -⟩ := (satisfies_aim_of_mem hl hversion he).mp hsat
      rw [mem_entries.mp he] at hrecord
      obtain rfl := Option.some.inj hrecord
      rfl

end

section

variable (hl : t.layout.Regular) (hnames : ∀ name v, row.get? name = some v → name ∈ t.layout.names)

include hl hnames

theorem knows_cellsOf {name : String} (h : name ∈ (Relational.cellsOf row).map (·.1)) :
    t.layout.place? name ≠ none := by
  obtain ⟨x, hx, rfl⟩ := List.mem_map.mp h
  obtain ⟨y, hy, rfl⟩ := List.mem_map.mp hx
  exact hl.place?_of_mem (hnames y.1 y.2 (Keyed.mem_entries_iff.mp hy))

theorem insert_of_numberOf {counter : Int64} {draws : List Int64}
    (hnumber : t.numberOf counter draws (Relational.cellsOf row) = .ok id)
    (hnew : t.records.get? id = none) (h : t.Allows ⟨id, t.layout.filled row Column.initial⟩)
    (as : String) :
    t.insert as counter draws (Relational.cellsOf row) =
      .ok (id, t.put ⟨id, t.layout.filled row Column.initial⟩) := by
  have hexact : ∀ x ∈ row.entries, t.layout.Exact x.1 :=
    fun x hx => (hl.spells hnames x.1 x.2 (Keyed.mem_entries_iff.mp hx)).1
  have hothers : ∀ o ∈ t.entries, o ∈ t.entries ∧ o.number ≠ id := by
    intro o ho
    refine ⟨ho, ?_⟩
    rintro rfl
    rw [mem_entries.mp ho] at hnew
    cases hnew
  rw [insert, Layout.stranger?_eq_none fun name => knows_cellsOf hl hnames, hnumber]
  simp only
  rw [Layout.record_cellsOf hl hexact, check_eq_put h rfl hothers]

theorem number_of_place? {x : String × Value} (hx : x ∈ row.entries)
    (hplace : t.layout.place? x.1 = some .number) : x.1 = Row.idColumn :=
  (hl.spells hnames x.1 x.2 (Keyed.mem_entries_iff.mp hx)).2 hplace

theorem insert_eq_put (hid : row.get? Row.idColumn = some (.int id))
    (hnew : t.records.get? id = none) (h : t.Allows ⟨id, t.layout.filled row Column.initial⟩)
    (as : String) (counter : Int64) (draws : List Int64) :
    t.insert as counter draws (Relational.cellsOf row) =
      .ok (id, t.put ⟨id, t.layout.filled row Column.initial⟩) := by
  have hnumber := numberOf_cellsOf hl (fun _ => number_of_place? hl hnames) hid counter draws
  exact insert_of_numberOf hl hnames hnumber hnew h as

variable
  (hversion : expected.isSome → ∃ c ∈ t.layout.columns, c.name = Row.versionColumn ∧
    c.affinity ≠ .text ∧ ∀ e ∈ t.entries, e.column c = .null ∨ ∃ n, e.column c = .int n)

include hversion

theorem stranger?_assigned : t.layout.stranger? ((Relational.assigned row).map (·.1) ++
    (expected.map fun _ => Row.versionColumn).toList) = none := by
  refine Layout.stranger?_eq_none fun name hname => ?_
  rcases List.mem_append.mp hname with hname | hname
  · exact knows_cellsOf hl (fun name v hv => hnames name v (get?_of_bare hv).1) hname
  · obtain ⟨v, rfl, rfl⟩ : ∃ v, expected = some v ∧ name = Row.versionColumn := by
      cases expected with
      | none => cases hname
      | some v => exact ⟨v, rfl, List.mem_singleton.mp hname⟩
    obtain ⟨c, hc, hc', -⟩ := hversion rfl
    rw [← hc', hl.place?_column hc]
    exact nofun

theorem update_missed (h : ∀ record, t.records.get? id = some record →
      ∃ m, expected = some m ∧ cellOf t.layout ⟨id, record⟩ (.field Row.versionColumn) ≠ .int m) :
    t.update (Session.aim id expected) (expected.map fun _ => Row.versionColumn)
      (Relational.assigned row) = .ok (false, t) := by
  rw [update, stranger?_assigned hl hnames hversion]
  simp only
  rw [find?_aim_eq_none hl hversion h]

theorem update_eq_put (hexact : t.layout.Exact Row.versionColumn)
    (hexpected : expected ≠ some Int64.maxValue) {record : Record}
    (hrecord : t.records.get? id = some record)
    (hcell : ∀ m, expected = some m →
      cellOf t.layout ⟨id, record⟩ (.field Row.versionColumn) = .int m)
    (h : t.Allows ⟨id, t.layout.filled (renewed row expected) (Entry.mk id record).column⟩) :
    t.update (Session.aim id expected) (expected.map fun _ => Row.versionColumn)
      (Relational.assigned row) =
        .ok (true, t.put ⟨id,
          t.layout.filled (renewed row expected) (Entry.mk id record).column⟩) := by
  have hchanged :=
    changed_assigned hl hexact (fun _ _ => (hl.spells hnames).bare) ⟨id, record⟩ expected
  rw [update, stranger?_assigned hl hnames hversion]
  simp only
  rw [find?_aim_eq_some hl hversion hrecord hcell]
  simp only
  rw [raised_eq hexpected hcell, replace_eq_put hchanged rfl h]
  rfl

end

end Table

namespace Session

variable {s : Session} {t : Table} {name : String} {cells : Cells}

theorem checkNames_of_plain (h : ∀ x ∈ cells, '\x00' ∉ x.1.toList) :
    (cells.forM fun x => checkName x.1) = .ok () := by
  induction cells with
  | nil => rfl
  | cons x rest ih =>
      obtain ⟨hx, hrest⟩ := List.forall_mem_cons.mp h
      change checkName x.1 >>= (fun _ => rest.forM fun x => checkName x.1) = .ok ()
      rw [checkName_of_plain hx]
      exact ih hrest

theorem update_eq (hname : '\x00' ∉ name.toList) (hcells : ∀ x ∈ cells, '\x00' ∉ x.1.toList)
    (ht : s.contents.table? name = .ok t) {id : Int64} {expected : Option Int64} {done : Bool}
    {u : Table}
    (h : t.update (aim id expected)
      (expected.map fun _ => Row.versionColumn) cells = .ok (done, u)) :
    s.update name id expected cells = .ok (done, { s with contents := s.contents.put u }) := by
  rw [update, checkName_of_plain hname, checkNames_of_plain hcells, ht]
  simp only [bind, Except.bind, h]
  rfl

theorem insert_nil (hname : '\x00' ∉ name.toList) :
    s.insert name [] = .error (.unexpected ")") := by
  rw [insert, checkName_of_plain hname]
  rfl

theorem insert_eq {l : Layout} (hname : '\x00' ∉ l.name.toList)
    (hcells : ∀ x ∈ cells, '\x00' ∉ x.1.toList) (hne : cells.isEmpty = false)
    (hcounters : folded l.name ≠ folded counters.name) (ht : s.contents.Has l t) {n : Int64}
    {u : Table} (h : t.insert l.name (s.contents.counter t.layout.name) s.contents.draws cells =
      .ok (n, u))
    (hu : u.layout = l) : ∃ contents : Contents, contents.Has l u ∧
      s.insert l.name cells = .ok (n, { s with contents := contents }) := by
  have hput := ht.put hcounters hu
  refine ⟨if u.layout.lasting then (s.contents.put u).raiseCounter u.layout.name n
    else s.contents.put u, ?_, ?_⟩
  · split
    · exact hput.raiseCounter hcounters _ _
    · exact hput
  · rw [insert, checkName_of_plain hname, checkNames_of_plain hcells, ht.table? rfl]
    simp only [bind, Except.bind, hne, h]
    rfl

end Session

end RecordQuery.Database
