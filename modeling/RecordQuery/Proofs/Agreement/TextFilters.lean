import RecordQuery.Proofs.Agreement.Operations
import RecordQuery.Proofs.Agreement.Stores
import RecordQuery.Proofs.Database.Contents

namespace RecordQuery

open RecordQuery.Database RecordQuery.Sql RecordQuery.Text

inductive TextFilter.Asks (field : String) (escape : Char) (f : TextFilter) : List Predicate → Prop
  | nothing : Asks field escape f []
  | equal (text : String) (hmatching : f.matching = .exact) :
      Asks field escape f [.compare (.field field) .eq (.value (.text text))]
  | like (pattern : String) (hmatching : f.matching ≠ .exact)
      (hpattern : Searchable pattern.toList (some escape))
      (hblurred : ∀ c ∈ pattern.toList, Blurred c → ∃ text ∈ f.value, c ∈ text.toList) :
      Asks field escape f [.like (.lower (.field field)) pattern (some escape)]

namespace Builder

open TextFilter

variable {b : Builder} {field text : String} {matching : Matching}
  (hcheck : b.settings.check = .ok ()) (hb : b.root = .empty)

include hcheck hb

theorem asks_like {f : TextFilter} (hmatching : f.matching ≠ .exact) {pattern : String}
    (hp : Searchable pattern.toList (some b.settings.escape))
    (hblurred : ∀ c ∈ pattern.toList, Blurred c → ∃ text ∈ f.value, c ∈ text.toList) :
    ∃ after, b.like field pattern b.settings.escape = .ok after ∧
      Asks field b.settings.escape f after.predicates := by
  have hlower : b.locale.lower pattern = pattern := Locale.lower_eq_self hp.small
  unfold like
  rw [Settings.checkEscape_of_check hcheck, hlower]
  refine ⟨_, rfl, ?_⟩
  split
  · rw [predicates, hb]
    exact .nothing
  · rw [predicates, push, hb]
    exact .like pattern hmatching hp hblurred

variable (hescape : Sharp b.settings.escape)

include hescape

theorem asks_likeMade (hmatching : matching ≠ .exact) (htext : '\x00' ∉ text.toList)
    {make : Locale → Char → String → Except ArgumentFault String} (hmake : TextPattern.Makes make) :
    ∃ after, b.likeMade field make text = .ok after ∧
      Asks field b.settings.escape ⟨some text, matching⟩ after.predicates := by
  obtain ⟨pattern, hpattern, hp, hblurred⟩ :=
    hmake b.locale b.settings.escape text (Settings.checkEscape_of_check hcheck) hescape htext
  unfold likeMade
  rw [hpattern]
  exact asks_like hcheck hb hmatching hp fun c hc hc' => ⟨text, rfl, hblurred c hc hc'⟩

theorem asks_likeText (hmatching : matching ≠ .exact) (htext : '\x00' ∉ text.toList) :
    ∃ after, b.likeText field text = .ok after ∧
      Asks field b.settings.escape ⟨some text, matching⟩ after.predicates := by
  unfold likeText
  split
  · refine ⟨b, rfl, ?_⟩
    rw [predicates, hb]
    exact .nothing
  · exact asks_likeMade hcheck hb hescape hmatching htext TextPattern.makes_contains

theorem asks_match (htext : '\x00' ∉ text.toList) (hmatching : matching ≠ .custom) :
    ∃ after, b.match? field text matching = .ok after ∧
      Asks field b.settings.escape ⟨some text, matching⟩ after.predicates := by
  cases matching with
  | exact =>
      refine ⟨_, rfl, ?_⟩
      rw [predicates, compare, Option.map_some, pushSome, push, hb]
      exact .equal text rfl
  | startsWith =>
      exact asks_likeMade hcheck hb hescape (by decide) htext TextPattern.makes_startsWith
  | endsWith => exact asks_likeMade hcheck hb hescape (by decide) htext TextPattern.makes_endsWith
  | like => exact asks_likeText hcheck hb hescape (by decide) htext
  | custom => exact absurd rfl hmatching

theorem asks_add {f : TextFilter} (hmatching : f.matching ≠ .custom)
    (htext : ∀ text, f.value = some text → '\x00' ∉ text.toList) :
    ∃ after, b.add field (some f) = .ok after ∧
      Asks field b.settings.escape f after.predicates := by
  have hnothing : Asks field b.settings.escape f b.predicates := by
    rw [predicates, hb]
    exact .nothing
  obtain ⟨value, matching⟩ := f
  cases value with
  | none => exact ⟨b, rfl, hnothing⟩
  | some text =>
      unfold add
      simp only
      split
      · exact ⟨b, rfl, hnothing⟩
      · exact asks_match hcheck hb hescape (htext text rfl) hmatching

end Builder

structure Labelled (l : Layout) (field : String) (row : Row) (e : Entry) : Prop where
  number : Row.value row Row.idColumn = .int e.number
  cell : cellOf l e (.field field) = .ofValue (Row.value row field)
  text : Row.value row field = .null ∨
    ∃ s, Row.value row field = .text s ∧ '\x00' ∉ s.toList

def PlainlyFolded (v : Value) : Prop :=
  ∀ s, v = .text s → ∀ c ∈ s.toList, c.toNat < 128 ∨ Small c

instance : ∀ v : Value, Decidable (PlainlyFolded v)
  | .text s =>
      have : Decidable (∀ c ∈ s.toList, c.toNat < 128 ∨ Small c) := List.decidableBAll _ _
      decidable_of_iff (∀ c ∈ s.toList, c.toNat < 128 ∨ Small c)
        ⟨fun h _ hs => Value.text.inj hs ▸ h, fun h => h s rfl⟩
  | .null => isTrue nofun
  | .bool _ => isTrue nofun
  | .int _ => isTrue nofun
  | .time _ => isTrue nofun

/-- A table takes no character of the text that a filter looks for, for another one of a value. -/
def TextFilter.ToldApart (f : TextFilter) : Value → Prop
  | .text s => ∀ text ∈ f.value, ∀ c ∈ text.toList, ∀ d ∈ s.toList, seen c = seen d → c = d
  | _ => True

theorem TextFilter.toldApart_of_not_blurred {f : TextFilter}
    (h : ∀ text ∈ f.value, ∀ c ∈ text.toList, ¬Blurred c) : ∀ v : Value, f.ToldApart v
  | .text _ => fun text htext c hc _ _ hseen =>
      (seen_eq_seen_iff.mp hseen).resolve_right fun hboth => h text htext c hc hboth.1
  | .null => trivial
  | .bool _ => trivial
  | .int _ => trivial
  | .time _ => trivial

namespace Labelled

variable {l : Layout} {field : String} {row : Row} {e : Entry} (h : Labelled l field row e)

include h

theorem equal_eq (haffinity : affinityOf l (.field field) = .text) (op : CompareOp)
    (text : String) :
    truth l e (.compare (.field field) op (.text text)) =
      op.test (Row.value row field) (.text text) := by
  rw [truth, haffinity, h.cell]
  rcases h.text with hnull | ⟨s, hs, -⟩
  · rw [hnull]
    rfl
  · rw [hs]
    rfl

theorem like_eq {params : Parameters} {pattern : String} {escape : Option Char} {f : TextFilter}
    (hpattern : Searchable pattern.toList escape)
    (hblurred : ∀ c ∈ pattern.toList, Blurred c → ∃ text ∈ f.value, c ∈ text.toList)
    (hfolded : PlainlyFolded (Row.value row field)) (happart : f.ToldApart (Row.value row field)) :
    truth l e (.like (.lower (.field field)) pattern escape) =
      (Predicate.like (.lower (.field field)) pattern escape).meaning params row := by
  obtain ⟨ts, hts⟩ := hpattern.readable
  rw [truth, Predicate.meaning, Expr.value_lower, cellOf, h.cell, Expr.value, hts]
  rcases h.text with hnull | ⟨s, hs, hzero⟩
  · rw [hnull]
    rfl
  · rw [hs] at happart ⊢
    have hlower : lowerAscii s.toList = lower s.toList := (lower_eq_lowerAscii (hfolded s hs)).symm
    change Database.likeTruth (.text (String.ofList (lowerAscii s.toList))) pattern escape = _
    rw [hlower, Predicate.likeTruth_lower hpattern hts hzero ?_, Value.folded, Value.likeText,
      String.toList_ofList]
    intro c hc d hd hseen
    rcases seen_eq_seen_iff.mp hseen with rfl | ⟨hblurry, -⟩
    · rfl
    · obtain ⟨text, htext, hmem⟩ := hblurred c hc hblurry
      exact happart text htext c hmem d hd hseen

end Labelled

def Predicate.Within (predicates : List Predicate) : Prop :=
  ∀ expr pattern escape, like expr pattern escape ∈ predicates → pattern.utf8ByteSize ≤ patternLimit

theorem Predicate.within_like_iff {expr : Expr} {pattern : String} {escape : Option Char} :
    Within [.like expr pattern escape] ↔ pattern.utf8ByteSize ≤ patternLimit := by
  refine ⟨fun h => h _ _ _ (List.mem_singleton_self _), ?_⟩
  rintro h _ _ _ hmem
  cases List.mem_singleton.mp hmem
  exact h

theorem Database.likeFault?_of_within {pattern : String} {escape : Char}
    (hsize : pattern.utf8ByteSize ≤ patternLimit) (hescape : escape ≠ '\x00') :
    likeFault? pattern (some escape) = none := by
  rw [likeFault?, if_neg (Nat.not_lt.mpr hsize), if_neg fun h => hescape (Option.some.inj h)]

theorem Database.likeFault?_of_beyond {pattern : String} (escape : Option Char)
    (hsize : ¬pattern.utf8ByteSize ≤ patternLimit) :
    likeFault? pattern escape = some .patternTooLong := if_pos (Nat.not_le.mp hsize)

def Relational.idsWhere (entity : String) (conditions : List Condition) : Select :=
  ⟨entity, .column Row.idColumn, false, conditions, [], none, none⟩

theorem Database.Table.fault?_of_forall {t : Table} {conditions : List Condition}
    {fault : Option DatabaseFault}
    (h : ∀ e, Database.fault? t.layout e true (Condition.allOf conditions).reduced = fault) :
    t.fault? conditions = if t.entries = [] then none else fault := by
  unfold Table.fault?
  simp only [h]
  cases t.entries with
  | nil => rfl
  | cons e rest =>
      rw [if_neg (List.cons_ne_nil e rest)]
      cases fault with
      | none => exact List.findSome?_eq_none_iff.mpr fun _ _ => rfl
      | some fault => rfl

namespace TextFilter.Asks

variable {field entity : String} {escape : Char} {f : TextFilter} {predicates : List Predicate}

theorem exists_conditions (h : Asks field escape f predicates) (hescape : Sharp escape)
    (params : Parameters) (hentity : '\x00' ∉ entity.toList) (hfield : '\x00' ∉ field.toList) :
    Predicate.ClosedAll params predicates ∧
    ∃ conditions, Condition.ofPredicates params predicates = .ok conditions ∧
      checkSelect (Relational.idsWhere entity conditions) = .ok () ∧
      (∀ t : Table, (Predicate.Within predicates → t.fault? conditions = none) ∧
        (¬Predicate.Within predicates →
          t.fault? conditions = if t.entries = [] then none else some .patternTooLong)) ∧
      ∀ {l : Layout} {row : Row} {e : Entry}, affinityOf l (.field field) = .text →
        Labelled l field row e → f.matching = .exact ∨
            (PlainlyFolded (Row.value row field) ∧ f.ToldApart (Row.value row field)) →
          satisfies l e conditions = (Predicate.meaningAll params row predicates == .yes) := by
  have hname := checkName_of_plain hentity
  have hcolumn := checkName_of_plain hfield
  cases h with
  | nothing =>
      refine ⟨trivial, [], rfl, ?_, fun t => ⟨fun _ => ?_, ?_⟩, fun _ _ _ => rfl⟩
      · rw [Relational.idsWhere, checkSelect, hname]
        rfl
      · exact (Table.fault?_of_forall fun _ => rfl).trans (ite_self none)
      · exact fun hlong => absurd nofun hlong
  | equal text hmatching =>
      refine ⟨⟨⟨_, rfl⟩, trivial⟩, [.compare (.field field) .eq (.text text)], rfl, ?_,
        fun t => ⟨fun _ => ?_, ?_⟩, ?_⟩
      · rw [Relational.idsWhere, checkSelect, hname, checkConditions, shape, exprHeight, hcolumn]
        rfl
      · exact (Table.fault?_of_forall fun _ => rfl).trans (ite_self none)
      · exact fun hlong => absurd (by simp [Predicate.Within]) hlong
      · intro l row e haffinity hrow _
        rw [satisfies, truthAll, hrow.equal_eq haffinity]
        rfl
  | like pattern hmatching hpattern hblurred =>
      have hmeets : ∀ (l : Layout) (e : Entry), Database.fault? l e true (Condition.allOf
          [.like (.lower (.field field)) pattern (some escape)]).reduced =
            likeFault? pattern (some escape) := fun _ _ => rfl
      refine ⟨⟨hpattern.readable, trivial⟩, [.like (.lower (.field field)) pattern (some escape)],
        rfl, ?_, fun t => ⟨fun hshort => ?_, fun hlong => ?_⟩, ?_⟩
      · rw [Relational.idsWhere, checkSelect, hname, checkConditions, shape, exprHeight, exprHeight,
          hcolumn]
        rfl
      · have hnone := likeFault?_of_within (Predicate.within_like_iff.mp hshort) hescape.1
        exact (Table.fault?_of_forall fun e => (hmeets _ e).trans hnone).trans (ite_self none)
      · have hrefused := likeFault?_of_beyond (some escape)
          (mt Predicate.within_like_iff.mpr hlong)
        exact Table.fault?_of_forall fun e => (hmeets _ e).trans hrefused
      · intro l row e haffinity hrow hplain
        obtain ⟨hfolded, happart⟩ := hplain.resolve_left hmatching
        rw [satisfies, truthAll, hrow.like_eq hpattern hblurred hfolded happart]
        rfl

end TextFilter.Asks

def Builder.query (b : Builder) (entity : String) : Query := { entity, predicates := b.predicates }

section

variable {l : Layout} {field : String}

theorem exists_pairs {rows : List Row} {entries : List Entry}
    (h : List.Forall₂ (Labelled l field) rows entries) :
    ∃ pairs : List (Row × Entry), pairs.map (·.1) = rows ∧ pairs.map (·.2) = entries ∧
      ∀ x ∈ pairs, Labelled l field x.1 x.2 := by
  obtain ⟨hlength, hall⟩ := List.forall₂_iff_zip.mp h
  exact ⟨rows.zip entries, List.map_fst_zip hlength.le, List.map_snd_zip hlength.ge,
    fun x hx => hall hx⟩

variable {pairs : List (Row × Entry)} {b : Builder} {entity : String}

theorem Memory.column_perm {m : Memory} (hpairs : ∀ x ∈ pairs, Labelled l field x.1 x.2)
    (hrows : pairs.map (·.1) = (m.tables.region entity).values)
    (hclosed : Predicate.ClosedAll (b.query entity).bindings b.predicates) :
    ∃ ids, Memory.column (b.query entity) Row.idColumn m = .ok ids ∧ ids.Perm
      ((pairs.filter fun x =>
        Predicate.meaningAll (b.query entity).bindings x.1 b.predicates == .yes).map
          fun x => Value.int x.2.number) := by
  refine ⟨_, by rw [Memory.column, Memory.select_eq hclosed m, Except.map], ?_⟩
  refine ((sortBy_perm _ _).map _).trans ?_
  change (List.map _ (List.filter _ (m.tables.region entity).values)).Perm _
  rw [← hrows, List.filter_map, List.map_map]
  refine .of_eq (List.map_congr_left fun x hx => ?_)
  exact (hpairs x (List.mem_filter.mp hx).1).number

theorem Relational.select_query {conditions : List Condition}
    (h : Condition.ofPredicates (b.query entity).bindings b.predicates = .ok conditions) :
    Relational.select (b.query entity) (.column Row.idColumn) =
      .ok (Relational.idsWhere entity conditions) := by
  simp only [Relational.select, Select.ofQuery]
  rw [show (b.query entity).predicates = b.predicates from rfl, h]
  rfl

section

variable {t : Table} {s : Relational} {conditions : List Condition}
  (hconditions : Condition.ofPredicates (b.query entity).bindings b.predicates = .ok conditions)
  (hcheck : checkSelect (Relational.idsWhere entity conditions) = .ok ())
  (ht : s.session.contents.table? entity = .ok t)

include hconditions hcheck ht

theorem Relational.column_refused {fault : DatabaseFault}
    (hfault : t.fault? conditions = some fault) :
    Relational.column (b.query entity) Row.idColumn s = .error (.database fault) := by
  have hselect : s.session.select (idsWhere entity conditions) = .ok t :=
    table?_of_checks hcheck ht
  rw [Relational.column, select_query hconditions]
  simp only [bind, Except.bind, valuesOf, tableOf, hselect, searched]
  rw [show (idsWhere entity conditions).conditions = conditions from rfl, hfault]

theorem Relational.column_perm (hentries : pairs.map (·.2) = t.entries)
    (hid : t.layout.place? Row.idColumn = some .number) (hfault : t.fault? conditions = none) :
    ∃ ids, Relational.column (b.query entity) Row.idColumn s = .ok ids ∧ ids.Perm
      ((pairs.filter fun x => satisfies t.layout x.2 conditions).map
        fun x => Value.int x.2.number) := by
  let selection := idsWhere entity conditions
  have htable : ∀ selection', Relational.select (b.query entity) (.column Row.idColumn) =
      .ok selection' → tableOf selection' s = .ok t := by
    intro selection' h
    obtain rfl := Except.ok.inj ((select_query hconditions).symm.trans h)
    rw [tableOf, table?_of_checks hcheck ht]
    simp only [searched]
    rw [show (idsWhere entity conditions).conditions = conditions from rfl, hfault]
  -- Without an order the entries stay as they were found, up to the sorting by nothing.
  let sorted := sortEntries t.layout [] id (found t selection)
  have hcells : foundCells t selection Row.idColumn = (sorted.map (·.number)).map Cell.int := by
    have hcell : ∀ e : Entry, cellOf t.layout e (.field Row.idColumn) = .int e.number := by
      intro e
      rw [cellOf, hid]
      rfl
    have hsort : sortEntries t.layout [] (·.2) ((found t selection).map fun e =>
        (cellOf t.layout e (.field Row.idColumn), e)) =
          sorted.map fun e => (cellOf t.layout e (.field Row.idColumn), e) := sortBy_map _ _ _
    change page none none ((sortEntries t.layout [] (·.2) ((found t selection).map fun e =>
        (cellOf t.layout e (.field Row.idColumn), e))).map (·.1)) = _
    rw [hsort, List.map_map, List.map_map]
    exact List.map_congr_left fun e _ => hcell e
  have hfound : (found t selection).Perm
      ((pairs.filter fun x => satisfies t.layout x.2 conditions).map (·.2)) := by
    have hperm := found_perm t selection
    rwa [← hentries, List.filter_map] at hperm
  refine ⟨(sorted.map (·.number)).map Value.int, ?_, ?_⟩
  · rw [Relational.column_eq_columnIn htable, Relational.columnIn, select_query hconditions]
    change (foundCells t selection Row.idColumn).mapM Relational.valueOf = _
    rw [hcells, Relational.mapM_valueOf_ints]
  · have hsorted : sorted.Perm (found t selection) := sortBy_perm _ _
    have hnumbers := (hsorted.trans hfound).map fun e => Value.int e.number
    rw [List.map_map] at hnumbers ⊢
    exact hnumbers

end

theorem mem_numbers_iff (hnumbers : (pairs.map (·.2.number)).Nodup) (p : Row × Entry → Bool)
    {x : Row × Entry} (hx : x ∈ pairs) :
    Value.int x.2.number ∈ (pairs.filter p).map (fun x => Value.int x.2.number) ↔ p x = true := by
  rw [List.mem_map]
  constructor
  · rintro ⟨y, hy, hyx⟩
    obtain ⟨hmem, hp⟩ := List.mem_filter.mp hy
    obtain rfl := List.inj_on_of_nodup_map hnumbers hmem hx (Value.int.inj hyx)
    exact hp
  · exact fun hp => ⟨x, List.mem_filter.mpr ⟨hx, hp⟩, rfl⟩

end

theorem text_filters_alike {locale : Locale} {settings : Settings} {b : Builder}
    {entity field : String} {f : TextFilter} {m : Memory} {s : Relational} {t : Table}
    (hb : Builder.of locale settings = .ok b) (hescape : Sharp settings.escape)
    (hmatching : f.matching ≠ .custom)
    (htext : ∀ text, f.value = some text → '\x00' ∉ text.toList)
    (hentity : '\x00' ∉ entity.toList) (hfield : '\x00' ∉ field.toList)
    (ht : s.session.contents.table? entity = .ok t)
    (hid : t.layout.place? Row.idColumn = some .number)
    (haffinity : affinityOf t.layout (.field field) = .text)
    (hrows : List.Forall₂ (Labelled t.layout field) (m.tables.region entity).values t.entries) :
    ∃ after ids, b.add field (some f) = .ok after ∧
      m.column (after.query entity) Row.idColumn = .ok ids ∧
      (¬Predicate.Within after.predicates → t.entries ≠ [] →
        s.column (after.query entity) Row.idColumn = .error (.database .patternTooLong)) ∧
      (Predicate.Within after.predicates ∨ t.entries = [] →
        ∃ ids', s.column (after.query entity) Row.idColumn = .ok ids' ∧
          (∀ row ∈ (m.tables.region entity).values, f.matching = .exact ∨
              (PlainlyFolded (Row.value row field) ∧ f.ToldApart (Row.value row field)) →
            (Row.value row Row.idColumn ∈ ids ↔ Row.value row Row.idColumn ∈ ids')) ∧
          ((∀ row ∈ (m.tables.region entity).values, f.matching = .exact ∨
              (PlainlyFolded (Row.value row field) ∧ f.ToldApart (Row.value row field))) →
            ids.Perm ids')) := by
  obtain ⟨hcheck, rfl⟩ : settings.check = .ok () ∧ ⟨locale, settings, .empty⟩ = b := by
    unfold Builder.of at hb
    split at hb
    · rename_i hcheck
      exact ⟨hcheck, Except.ok.inj hb⟩
    · cases hb
  obtain ⟨after, hafter, hasks⟩ : ∃ after, Builder.add ⟨locale, settings, .empty⟩ field (some f) =
      .ok after ∧ TextFilter.Asks field settings.escape f after.predicates :=
    Builder.asks_add hcheck rfl hescape hmatching htext
  obtain ⟨hclosed, conditions, hconditions, hchecks, hfaults, hagree⟩ :=
    hasks.exists_conditions hescape (after.query entity).bindings hentity hfield
  obtain ⟨hshort, hlong⟩ := hfaults t
  obtain ⟨pairs, hfst, hsnd, hpairs⟩ := exists_pairs hrows
  obtain ⟨ids, hids, hperm⟩ := Memory.column_perm hpairs hfst hclosed
  have hnumbers : (pairs.map (·.2.number)).Nodup := by
    have h := Database.numbers_nodup t
    rwa [← hsnd, List.map_map] at h
  refine ⟨after, ids, hafter, hids, fun hbeyond hsome => ?_, fun hwithin => ?_⟩
  · refine Relational.column_refused hconditions hchecks ht ?_
    rw [hlong hbeyond, if_neg hsome]
  have hfault : t.fault? conditions = none := by
    rcases hwithin with h | h
    · exact hshort h
    · rw [Table.fault?, h]
      rfl
  obtain ⟨ids', hids', hperm'⟩ :=
    Relational.column_perm hconditions hchecks ht hsnd hid hfault
  refine ⟨ids', hids', ?_, ?_⟩
  · intro row hrow hplain
    rw [← hfst] at hrow
    obtain ⟨x, hx, rfl⟩ := List.mem_map.mp hrow
    rw [(hpairs x hx).number, hperm.mem_iff, hperm'.mem_iff, mem_numbers_iff hnumbers _ hx,
      mem_numbers_iff hnumbers _ hx, hagree haffinity (hpairs x hx) hplain]
  · intro hall
    have hfilter : pairs.filter (fun x => satisfies t.layout x.2 conditions) = pairs.filter fun x =>
        Predicate.meaningAll (after.query entity).bindings x.1 after.predicates == .yes := by
      refine List.filter_congr fun x hx => ?_
      exact hagree haffinity (hpairs x hx) (hall x.1 (hfst ▸ List.mem_map_of_mem hx))
    rw [hfilter] at hperm'
    exact hperm.trans hperm'.symm

section

open Tag

def Tag.accented : List Tag := [⟨9, some "été B"⟩, ⟨10, none⟩, ⟨11, some "ÉTÉ b"⟩]

def Tag.inDatabase (tags : List Tag) : Relational :=
  { session := ⟨({} : Contents).put (inTable tags), none⟩ }

def Tag.wanted : TextFilter := ⟨some "Ét B", .like⟩

theorem Tag.labelled_accented : List.Forall₂ (Labelled layout labelColumn)
    ((inMemory accented).tables.region "tag").values (inTable accented).entries := by
  have hrows : ((inMemory accented).tables.region "tag").values = accented.map toRow := by
    decide
  have hentries : (inTable accented).entries = [⟨9, .ofList [(labelColumn, .text "été B")]⟩,
    ⟨10, .ofList [(labelColumn, .null)]⟩, ⟨11, .ofList [(labelColumn, .text "ÉTÉ b")]⟩] := by
    decide
  rw [hrows, hentries]
  refine .cons ⟨?_, ?_, .inr ⟨"été B", ?_, ?_⟩⟩ (.cons ⟨?_, ?_, .inl ?_⟩
    (.cons ⟨?_, ?_, .inr ⟨"ÉTÉ b", ?_, ?_⟩⟩ .nil))
  all_goals decide

theorem Tag.within_wanted {after : Builder}
    (h : (⟨.english, {}, .empty⟩ : Builder).add labelColumn (some wanted) = .ok after) :
    Predicate.Within after.predicates := by
  have hmade : (⟨.english, {}, .empty⟩ : Builder).add labelColumn (some wanted) =
      .ok ((⟨.english, {}, .empty⟩ : Builder).push
        (.like (.lower (.field labelColumn)) "%ét%b%" (some '\\'))) := rfl
  obtain rfl := Except.ok.inj (h.symm.trans hmade)
  exact Predicate.within_like_iff.mpr (by decide +kernel)

theorem text_filters_alike_accented :
    ∃ after ids ids', (⟨.english, {}, .empty⟩ : Builder).add labelColumn (some wanted) = .ok after ∧
      (inMemory accented).column (after.query "tag") Row.idColumn = .ok ids ∧
      (inDatabase accented).column (after.query "tag") Row.idColumn = .ok ids' ∧
      (.int 9 ∈ ids ↔ .int 9 ∈ ids') ∧ (.int 10 ∈ ids ↔ .int 10 ∈ ids') := by
  have htext : ∀ text, wanted.value = some text → '\x00' ∉ text.toList := by
    rintro text ⟨⟩
    decide +kernel
  have htable : (inDatabase accented).session.contents.table? "tag" = .ok (inTable accented) := rfl
  have hb : Builder.of .english {} = .ok ⟨.english, {}, .empty⟩ := rfl
  obtain ⟨after, ids, hafter, hids, -, hanswers⟩ :=
    text_filters_alike hb (by decide) (by decide) htext (by decide +kernel) (by decide +kernel)
      htable rfl rfl labelled_accented
  obtain ⟨ids', hids', halike, -⟩ := hanswers (.inl (within_wanted hafter))
  have hclear : ∀ text ∈ wanted.value, ∀ c ∈ text.toList, ¬Blurred c := by
    rintro text ⟨⟩ c hc hblurred
    have hbelow : "Ét B".toList.all (fun c => decide (c.toNat < 0xFFFD)) = true := by decide +kernel
    have hc' := of_decide_eq_true (List.all_eq_true.mp hbelow c hc)
    exact absurd (blurred_iff.mp hblurred).1 (Nat.not_le.mpr hc')
  have happart := TextFilter.toldApart_of_not_blurred hclear
  refine ⟨after, ids, ids', hafter, hids, hids', ?_, ?_⟩
  · exact halike (toRow ⟨9, some "été B"⟩) (by decide +kernel)
      (.inr ⟨by decide +kernel, happart _⟩)
  · exact halike (toRow ⟨10, none⟩) (by decide +kernel) (.inr ⟨by decide +kernel, happart _⟩)

theorem text_filters_disagree :
    ∃ after, (⟨.english, {}, .empty⟩ : Builder).add labelColumn (some wanted) = .ok after ∧
      (inMemory accented).column (after.query "tag") Row.idColumn = .ok [.int 9, .int 11] ∧
      (inDatabase accented).column (after.query "tag") Row.idColumn = .ok [.int 9] := by
  refine ⟨(⟨.english, {}, .empty⟩ : Builder).push
    (.like (.lower (.field labelColumn)) "%ét%b%" (some '\\')), ?_, ?_, ?_⟩
  · rfl
  · decide +kernel
  · decide +kernel

end

end RecordQuery
