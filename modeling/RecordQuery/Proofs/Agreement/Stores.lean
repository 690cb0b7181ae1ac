import RecordQuery.Entity.Tag
import RecordQuery.Proofs.Agreement.Queries
import RecordQuery.Proofs.Agreement.Steps

namespace RecordQuery

open RecordQuery.Database RecordQuery.Sql

structure Shared (kind : String → Row.Kind) (m : Memory) (entity : String) (t : Table) : Prop where
  typed : Typed t.layout kind
  rows : List.Forall₂ (Alike t.layout kind) (m.tables.region entity).values t.entries

def Relational.Passes (t : Table) (q : Query) (projection : Projection) : Prop :=
  ∀ selection, select q projection = .ok selection →
    checkSelect selection = .ok () ∧ t.fault? selection.conditions = none

def Query.ofBuilder (q : Query) (b : Builder) : Query := { q with predicates := b.predicates }

namespace Shared

variable {kind : String → Row.Kind} {m : Memory} {t : Table} {q : Query}

theorem answers_eq (h : Shared kind m q.entity t) (hq : q.Suits t.layout kind) :
    ∃ ids n, Memory.column q Row.idColumn m = .ok ids ∧ Memory.count q m = .ok n ∧
      Relational.columnIn t q Row.idColumn = .ok ids ∧ Relational.countIn t q = .ok n := by
  obtain ⟨twins, hrows, hentries⟩ := exists_twins h.rows
  exact ⟨_, _, Memory.column_eq_selected hrows hentries hq,
    Memory.count_eq_selected hrows hentries hq,
    Relational.columnIn_eq_selected hentries h.typed hq,
    Relational.countIn_eq_selected hentries h.typed hq⟩

theorem tableOf_eq {s : Relational} {projection : Projection}
    (ht : s.session.contents.table? q.entity = .ok t) (hpasses : Relational.Passes t q projection) :
    ∀ selection, Relational.select q projection = .ok selection →
      Relational.tableOf selection s = .ok t := by
  intro selection hselect
  have htable : selection.table = q.entity := by
    unfold Relational.select Select.ofQuery at hselect
    cases hc : Condition.ofPredicates q.bindings q.predicates with
    | error fault =>
        rw [hc] at hselect
        cases hselect
    | ok conditions =>
        rw [hc] at hselect
        cases hselect
        rfl
  obtain ⟨hchecks, hpatterns⟩ := hpasses selection hselect
  rw [Relational.tableOf, Session.select, hchecks, htable, ht]
  simp only [Relational.searched, hpatterns]

theorem builder_answers_eq {locale : Locale} {settings : Settings} {b : Builder}
    {steps : List Step} (h : Shared kind m q.entity t) (horders : Ranked t.layout kind q.orders)
    (hb : Builder.of locale settings = .ok b) (hescape : Sharp settings.escape)
    (hsteps : Step.SuitsAll t.layout kind q.bindings steps) :
    ∃ after ids n, b.run steps = .ok after ∧
      Memory.column (q.ofBuilder after) Row.idColumn m = .ok ids ∧
      Memory.count (q.ofBuilder after) m = .ok n ∧
      Relational.columnIn t (q.ofBuilder after) Row.idColumn = .ok ids ∧
      Relational.countIn t (q.ofBuilder after) = .ok n ∧
      ∀ s : Relational, s.session.contents.table? q.entity = .ok t →
        (Relational.Passes t (q.ofBuilder after) (.column Row.idColumn) →
          Relational.column (q.ofBuilder after) Row.idColumn s = .ok ids) ∧
        (Relational.Passes t (q.ofBuilder after) .count →
          Relational.count (q.ofBuilder after) s = .ok n) := by
  obtain ⟨after, hrun, hready⟩ := Builder.ready_run (Builder.ready_of hb hescape) hsteps
  obtain ⟨ids, n, hcolumn, hcount, hcolumnIn, hcountIn⟩ :=
    answers_eq (q := q.ofBuilder after) h ⟨hready.suits, horders⟩
  refine ⟨after, ids, n, hrun, hcolumn, hcount, hcolumnIn, hcountIn, ?_⟩
  intro s ht
  have htable : s.session.contents.table? (q.ofBuilder after).entity = .ok t := ht
  refine ⟨?_, ?_⟩
  · intro hpasses
    exact (Relational.column_eq_columnIn (tableOf_eq htable hpasses)).trans hcolumnIn
  · intro hpasses
    exact (Relational.count_eq_countIn (tableOf_eq htable hpasses)).trans hcountIn

end Shared

section

open Tag

def Tag.kind (name : String) : Row.Kind := if name = labelColumn then .text else .integer

def Tag.inMemory (tags : List Tag) : Memory :=
  { tables := tags.foldl (fun file tag => file.put "tag" tag.id tag.toRow) {} }

def Tag.inTable (tags : List Tag) : Table :=
  ⟨layout, .ofList (tags.map fun tag =>
    (tag.id, .ofList [(labelColumn, .ofValue (.ofOption .text tag.label))]))⟩

def Tag.two : List Tag := [⟨9, some "Ab"⟩, ⟨10, some "b"⟩]

theorem Tag.typed : Typed layout kind := by
  refine ⟨by decide, ?_⟩
  decide

theorem Tag.shared_two : Shared kind (inMemory two) "tag" (inTable two) := by
  refine ⟨typed, ?_⟩
  have hrows : ((inMemory two).tables.region "tag").values = two.map toRow := by decide
  have hentries : (inTable two).entries = [⟨9, .ofList [(labelColumn, .text "Ab")]⟩,
    ⟨10, .ofList [(labelColumn, .text "b")]⟩] := by decide
  rw [hrows, hentries]
  refine .cons ⟨?_, ?_, ?_, ?_⟩ (.cons ⟨?_, ?_, ?_, ?_⟩ .nil)
  all_goals decide

def Tag.byLabel : Query :=
  { entity := "tag", parameters := [("least", .int 9)],
    orders := [⟨.lower (.field labelColumn), .desc⟩, ⟨.field Row.idColumn, .asc⟩] }

def Tag.withB : List Step :=
  [.likeText labelColumn "B", .group [.equalParameter Row.idColumn "least", .group
    [.compare Row.idColumn .gt (some (.int 9)), .isNull labelColumn]]]

theorem Shared.builder_answers_eq_two :
    ∃ after ids n, (⟨.english, {}, .empty⟩ : Builder).run withB = .ok after ∧
      Memory.column (byLabel.ofBuilder after) Row.idColumn (inMemory two) = .ok ids ∧
      Memory.count (byLabel.ofBuilder after) (inMemory two) = .ok n ∧
      Relational.columnIn (inTable two) (byLabel.ofBuilder after) Row.idColumn = .ok ids ∧
      Relational.countIn (inTable two) (byLabel.ofBuilder after) = .ok n := by
  have hranked : Ranked (inTable two).layout kind byLabel.orders :=
    ⟨by decide +kernel, _, rfl, rfl⟩
  have hsteps : Step.SuitsAll (inTable two).layout kind byLabel.bindings withB := by
    refine ⟨⟨?_, ?_, ?_⟩, ⟨⟨?_, .int 9, ?_, ?_⟩, ⟨⟨?_, ?_⟩, ?_, trivial⟩, trivial⟩, trivial⟩
    · decide
    · decide
    · decide
    · decide
    · decide +kernel
    · decide +kernel
    · decide
    · rintro v ⟨⟩
      decide +kernel
    · exact (by decide : labelColumn ∈ layout.names)
  have hb : Builder.of .english {} = .ok ⟨.english, {}, .empty⟩ := rfl
  obtain ⟨after, ids, n, hrun, hcolumn, hcount, hcolumnIn, hcountIn, -⟩ :=
    builder_answers_eq shared_two hranked hb (by decide) hsteps
  exact ⟨after, ids, n, hrun, hcolumn, hcount, hcolumnIn, hcountIn⟩

def Tag.byFoldedId : Query :=
  { entity := "tag",
    orders := [⟨.lower (.field Row.idColumn), .asc⟩, ⟨.field Row.idColumn, .asc⟩] }

theorem Shared.folded_integers_disagree :
    Shared kind (inMemory two) byFoldedId.entity (inTable two) ∧
      Memory.column byFoldedId Row.idColumn (inMemory two) = .ok [.int 9, .int 10] ∧
      Relational.columnIn (inTable two) byFoldedId Row.idColumn = .ok [.int 10, .int 9] := by
  refine ⟨shared_two, ?_, ?_⟩
  · decide +kernel
  · decide +kernel

end

end RecordQuery
