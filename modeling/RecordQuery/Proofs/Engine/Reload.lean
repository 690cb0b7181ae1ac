import RecordQuery.Proofs.Engine.Load
import RecordQuery.Proofs.Engine.Save
import RecordQuery.Proofs.Entity.Storage
import RecordQuery.Proofs.Store.Storing

namespace RecordQuery

open RecordQuery.Database RecordQuery.Time

namespace Engine

open RecordQuery.Relational

variable {E : Type}

section

variable [Entity E] {l : Layout} {id : Int64} {row : Row} {e : Engine Relational} {a : E}

theorem load_cached (hname : l.name = Entity.name E) (h : Kept l id row e.store)
    (hread : Entity.ofRow row = .ok a) : (e.load id false).1 = .ok (some a) := by
  have hfind : Store.find (Entity.name E) id e.store =
      (.ok (some row), { e.store with cache := (e.store.cache.get (Entity.name E) id).2 }) :=
    find_of_cached (hname ▸ h.cached)
  unfold load
  simp only [Bool.false_eq_true, if_false, hfind, decode_eq_ok.mpr hread]
  rfl

theorem load_cleared (hname : l.name = Entity.name E) (h : Kept l id row e.store) :
    ∃ found, (∀ name v, row.get? name = some v → found.get? name = some v.storageForm) ∧
      (e.load (E := E) id true).1 = (decode found).map some := by
  obtain ⟨found, hrows, hvalues⟩ := h.table
  refine ⟨found, hvalues, ?_⟩
  have hevicted : (Store.evict (Entity.name E) id e.store).cache.row? (Entity.name E) id = none :=
    (Cache.row?_evict ..).trans (if_pos ⟨rfl, rfl⟩)
  have hfind : (Store.find (Entity.name E) id (Store.evict (Entity.name E) id e.store)).1 =
      .ok (some found) := congrArg Prod.fst (find_of_cons hevicted (hname ▸ hrows))
  unfold load
  simp only [if_true]
  rw [← Prod.eta (Store.find (Entity.name E) id (Store.evict (Entity.name E) id e.store))]
  simp only [hfind]

theorem save_eq_ok {flush : Bool} {s : E} (h : (e.save a flush).1 = .ok s) :
    ∃ row, decode row = .ok s ∧ if Entity.isTransient a
      then insert (Entity.name E) (Entity.toRow a) e.store = (.ok row, (e.save a flush).2.store)
      else update (Entity.name E) (Entity.id a) (Entity.version a) (Entity.toRow a) e.store =
        (.ok row, (e.save a flush).2.store) := by
  have hinsert : (Store.insert : String → Row → Relational → _) = insert := rfl
  have hupdate : (Store.update : String → Int64 → Option Int64 → Row → Relational → _) = update :=
    rfl
  have hflush (t : Relational) : (if flush then Store.flush t else t) = t := by
    cases flush <;> rfl
  cases htransient : Entity.isTransient a with
  | true =>
      cases hwrite : insert (Entity.name E) (Entity.toRow a) e.store with
      | mk answer t =>
          simp only [save, htransient, if_true, hinsert, hwrite, hflush] at h ⊢
          cases answer with
          | error fault => cases h
          | ok row => exact ⟨row, h, rfl⟩
  | false =>
      cases hwrite : update (Entity.name E) (Entity.id a) (Entity.version a) (Entity.toRow a)
          e.store with
      | mk answer t =>
          simp only [save, htransient, Bool.false_eq_true, if_false, hupdate, hwrite, hflush] at h ⊢
          cases answer with
          | error fault => cases h
          | ok row => exact ⟨row, h, rfl⟩

end

variable [Audited E] [LawfulStorage E] {layouts : List Layout} {l : Layout}
  {e : Engine Relational} {a s : E} {flush : Bool}

theorem get?_versioned (id version : Int64) (row : Row) (name : String) :
    (Memory.versioned id version row).get? name =
      if name = Row.versionColumn then some (.int version)
      else if name = Row.idColumn then some (.int id) else row.get? name := by
  rw [Memory.versioned, Memory.numbered, Keyed.get?_put, Keyed.get?_put]

theorem initialRow_put_id {row : Row} (h : row.contains Row.versionColumn = true) (id : Int64) :
    (initialRow row).put Row.idColumn (.int id) = Memory.versioned id 0 row := by
  ext name
  have hne : Row.versionColumn ≠ Row.idColumn := by decide
  rw [initialRow, if_pos h, get?_versioned, Keyed.get?_put, Keyed.get?_put]
  by_cases hversion : name = Row.versionColumn
  · rw [if_pos hversion, if_pos hversion, if_neg (hversion ▸ hne)]
  · rw [if_neg hversion, if_neg hversion]

theorem kept_of_save (hs : Schema layouts) (hl : l ∈ layouts) (hname : l.name = Entity.name E)
    (hsound : Sound layouts e.store) (hkeeps : l.Keeps (Entity.toRow a))
    (hversion : Entity.version a ≠ some Int64.maxValue) (h : (e.save a flush).1 = .ok s) :
    ∃ id version, s = Entity.withVersion (Entity.withId a id) version ∧
      Kept l id (Memory.versioned id version (Entity.toRow a)) (e.save a flush).2.store := by
  obtain ⟨row, hread, hwrite⟩ := save_eq_ok h
  have hdecode : ∀ id version, row = Memory.versioned id version (Entity.toRow a) →
      s = Entity.withVersion (Entity.withId a id) version := by
    rintro id version rfl
    rw [decode_versioned] at hread
    exact (Except.ok.inj hread).symm
  split at hwrite
  · have hok : (insert l.name (Entity.toRow a) e.store).1 = .ok row := by rw [hname, hwrite]
    obtain ⟨n, hrow, hkept⟩ := kept_of_insert hs hl hsound hkeeps hok
    rw [initialRow_put_id (LawfulVersions.hasVersion a)] at hrow
    rw [hname, hwrite] at hkept
    subst hrow
    exact ⟨n, 0, hdecode _ _ rfl, hkept⟩
  · rw [LawfulAudit.version_audit] at hversion hwrite
    have hmax : (Audited.audit a).version ≠ Int64.maxValue :=
      fun heq => hversion (congrArg some heq)
    have hok : (update l.name (Entity.id a) (some (Audited.audit a).version) (Entity.toRow a)
        e.store).1 = .ok row := by rw [hname, hwrite]
    obtain ⟨hrow, hkept⟩ := kept_of_update hs hl hsound hkeeps hmax hok
    rw [hname, hwrite] at hkept
    have hrow : row = Memory.versioned (Entity.id a) ((Audited.audit a).version + 1)
      (Entity.toRow a) := hrow
    subst hrow
    exact ⟨_, _, hdecode _ _ rfl, hkept⟩

theorem sound_save (hs : Schema layouts) (hl : l ∈ layouts) (hname : l.name = Entity.name E)
    (hsound : Sound layouts e.store) (hkeeps : l.Keeps (Entity.toRow a))
    (hversion : Entity.version a ≠ some Int64.maxValue) (h : (e.save a flush).1 = .ok s) :
    Sound layouts (e.save a flush).2.store := by
  obtain ⟨row, -, hwrite⟩ := save_eq_ok h
  split at hwrite
  · have hinserted := sound_insert hs hl hsound hkeeps
    rwa [hname, hwrite] at hinserted
  · rw [LawfulAudit.version_audit] at hversion hwrite
    have hmax : (Audited.audit a).version ≠ Int64.maxValue :=
      fun heq => hversion (congrArg some heq)
    have hupdated : Sound layouts (update l.name (Entity.id a) (some (Audited.audit a).version)
        (Entity.toRow a) e.store).2 := sound_update hs hl hsound hkeeps hmax
    rwa [hname, hwrite] at hupdated

theorem storable_of_stored {found : Row} {column : String} {t : Instant}
    (hstored : found.get? column = some (Value.time t).storageForm)
    (hread : Row.time found column = .ok t) : t.Storable := by
  have hvalue : found.value column = .text t.stored := by
    rw [Row.value, hstored]
    rfl
  have htime := (Row.read_eq_ok.mp hread).2
  rw [hvalue] at htime
  exact Instant.read?_stored_iff.mp htime

theorem tells_toRow (htimes : ∀ name t, (Entity.toRow a).get? name = some (.time t) →
      name ∈ [Audit.createdColumn, Audit.editedColumn] ∨ t.Storable)
    (hcreated : (Audited.audit a).created.Storable) (hedited : (Audited.audit a).edited.Storable)
    {name : String} {v : Value} (hv : (Entity.toRow a).get? name = some v) : v.Tells := by
  cases v with
  | time t =>
      rcases htimes name t hv with hstamp | hstorable
      · simp only [List.mem_cons, List.not_mem_nil, or_false] at hstamp
        rcases hstamp with rfl | rfl
        · rw [LawfulStorage.created_toRow] at hv
          cases hv
          exact hcreated
        · rw [LawfulStorage.edited_toRow] at hv
          cases hv
          exact hedited
      · exact hstorable
  | null | bool _ | int _ | text _ => trivial

omit [LawfulStorage E] in
theorem alike_of_tells (htells : ∀ name v, (Entity.toRow a).get? name = some v → v.Tells)
    {id version : Int64} {found : Row}
    (hvalues : ∀ name v, (Memory.versioned id version (Entity.toRow a)).get? name = some v →
      found.get? name = some v.storageForm)
    {name : String} (hname : (Entity.toRow a).contains name) :
    (Row.value (Memory.versioned id version (Entity.toRow a)) name).ReadsAs (found.value name) := by
  obtain ⟨v, hv, htold⟩ : ∃ v,
      (Memory.versioned id version (Entity.toRow a)).get? name = some v ∧ v.Tells := by
    rw [get?_versioned]
    split
    · exact ⟨_, rfl, trivial⟩
    · split
      · exact ⟨_, rfl, trivial⟩
      · obtain ⟨v, hv⟩ := Option.isSome_iff_exists.mp hname
        exact ⟨v, hv, htells name v hv⟩
  rw [Row.value, Row.value, hv, hvalues name v hv]
  exact Value.readsAs_storageForm htold

theorem load_after_save (hs : Schema layouts) (hl : l ∈ layouts) (hname : l.name = Entity.name E)
    (hsound : Sound layouts e.store) (hkeeps : l.Keeps (Entity.toRow a))
    (htimes : ∀ name t, (Entity.toRow a).get? name = some (.time t) →
      name ∈ [Audit.createdColumn, Audit.editedColumn] ∨ t.Storable)
    (hversion : Entity.version a ≠ some Int64.maxValue) (h : (e.save a flush).1 = .ok s) :
    ((e.save a flush).2.load (Entity.id s) false).1 = .ok (some s) ∧
      (((e.save a flush).2.load (Entity.id s) true).1 = .ok (some s) ↔
        (Audited.audit s).created.Storable ∧ (Audited.audit s).edited.Storable) := by
  obtain ⟨id, version, rfl, hkept⟩ := kept_of_save hs hl hname hsound hkeeps hversion h
  have hread := LawfulVersions.ofRow_versioned a id version
  rw [LawfulVersions.id_set]
  refine ⟨load_cached hname hkept hread, ?_⟩
  obtain ⟨found, hvalues, hload⟩ := load_cleared (E := E) hname hkept
  rw [hload, LawfulAudit.audit_versioned]
  constructor
  · intro hsame
    obtain ⟨b, hb, hfound⟩ := map_eq_ok.mp hsame
    obtain rfl := Option.some.inj hfound
    have hreads := Audit.reads_of_ofRow (LawfulAudit.audit_of_row (decode_eq_ok.mp hb))
    rw [LawfulAudit.audit_versioned] at hreads
    have hcreated : (Memory.versioned id version (Entity.toRow a)).get? Audit.createdColumn =
        some (.time (Audited.audit a).created) := by
      rw [get?_versioned, if_neg (by decide), if_neg (by decide), LawfulStorage.created_toRow]
    have hedited : (Memory.versioned id version (Entity.toRow a)).get? Audit.editedColumn =
        some (.time (Audited.audit a).edited) := by
      rw [get?_versioned, if_neg (by decide), if_neg (by decide), LawfulStorage.edited_toRow]
    exact ⟨storable_of_stored (hvalues _ _ hcreated) hreads.created,
      storable_of_stored (hvalues _ _ hedited) hreads.edited⟩
  · rintro ⟨hcreated, hedited⟩
    have htells : ∀ name v, (Entity.toRow a).get? name = some v → v.Tells :=
      fun _ _ => tells_toRow htimes hcreated hedited
    have halike := LawfulStorage.ofRow_alike a (fun _ => alike_of_tells htells hvalues) hread
    rw [decode_eq_ok.mpr halike]
    rfl

theorem schema_documents : Schema [Document.layout] := by
  have hproper : Document.layout.Proper := by
    refine ⟨by decide, rfl, by decide, by decide, by decide, ?_⟩
    intro c hc
    simp only [Document.layout, List.mem_cons, List.not_mem_nil, or_false] at hc
    rcases hc with rfl | rfl | rfl | rfl | rfl | rfl | rfl
    all_goals first
      | exact ⟨rfl, ⟨_, rfl⟩, fun _ => .inl rfl⟩
      | exact ⟨rfl, ⟨_, rfl⟩, fun _ => .inr ⟨0, rfl⟩⟩
  refine ⟨?_, by decide, by decide⟩
  intro l hl
  obtain rfl := List.mem_singleton.mp hl
  exact hproper

theorem keeps_document {d : Document} (htitle : '\x00' ∉ d.title.toList) :
    Document.layout.Keeps d.toRow := by
  have htime (t : Instant) : (Affinity.text.keep (.ofValue (.time t))).value? =
      .ok (Value.time t).storageForm :=
    congrArg (fun s => Except.ok (Value.text s)) (clip_eq_self.mpr t.zero_not_mem_stored)
  have huser (user : Option Int64) :
      (Affinity.integer.keep (.ofValue (.ofOption .int user))).value? =
      .ok (Value.ofOption .int user).storageForm := by
    cases user <;> rfl
  have htext : (Affinity.text.keep (.ofValue (.text d.title))).value? =
      .ok (Value.text d.title).storageForm :=
    congrArg (fun s => Except.ok (Value.text s)) (clip_eq_self.mpr htitle)
  have htakes {c : Column} (hc : c ∈ Document.layout.columns) {v : Value} :=
    (schema_documents.proper _ (List.mem_singleton_self _)).regular.takes_storageForm hc (v := v)
  intro name v hv
  obtain ⟨hrow, hid, hversion⟩ := get?_of_bare hv
  rw [Document.get?_toRow] at hrow
  split at hrow
  · obtain rfl := Option.some.inj hrow
    subst name
    exact htakes (c := { name := "title", affinity := .text, required := true }) (by decide) htext
  · have hgiven := Keyed.mem_of_get?_ofList hrow
    simp only [List.mem_cons, Prod.mk.injEq, List.not_mem_nil, or_false] at hgiven
    rcases hgiven with ⟨rfl, -⟩ | ⟨rfl, rfl⟩ | ⟨rfl, rfl⟩ | ⟨rfl, rfl⟩ | ⟨rfl, rfl⟩ | ⟨rfl, -⟩ |
      ⟨rfl, rfl⟩
    · exact absurd rfl hid
    · exact htakes (c := { name := "created", affinity := .text, required := true }) (by decide)
        (htime _)
    · exact htakes (c := { name := "edited", affinity := .text, required := true }) (by decide)
        (htime _)
    · exact htakes (c := { name := "creator", affinity := .integer }) (by decide) (huser _)
    · exact htakes (c := { name := "editor", affinity := .integer }) (by decide) (huser _)
    · exact absurd rfl hversion
    · exact htakes (c := { name := "deleted", affinity := .integer }) (by decide) rfl

theorem times_toRow (d : Document) {name : String} {t : Instant}
    (h : d.toRow.get? name = some (.time t)) :
    name ∈ [Audit.createdColumn, Audit.editedColumn] := by
  rw [Document.get?_toRow] at h
  split at h
  · cases h
  · have hgiven := Keyed.mem_of_get?_ofList h
    have huser (user : Option Int64) : Value.time t ≠ .ofOption .int user := by
      cases user <;> nofun
    simp only [List.mem_cons, Prod.mk.injEq, List.not_mem_nil, or_false, huser, and_false,
      reduceCtorEq, false_or] at hgiven ⊢
    exact hgiven.imp And.left And.left

def shelf : Engine Relational := { store := .ofLayouts [Document.layout] }

theorem sound_shelf : Sound [Document.layout] shelf.store :=
  ⟨fits_ofLayouts schema_documents [], nofun⟩

def afterNoon (micros : Int) : Instant := Instant.epoch.advance (1000 * (43200000000 + micros))

def signedPage : Document :=
  { audit :=
      { created := afterNoon 123456, edited := afterNoon 123456, creator := some 7,
        editor := some 7 }
    title := "page" }

def storedSignedPage : Document := { signedPage with audit := { signedPage.audit with id := 1 } }

def deletedPage : Document :=
  { audit :=
      { storedSignedPage.audit with
        edited := afterNoon 654321, editor := some 8, deleted := true }
    title := "last page" }

def storedDeletedPage : Document :=
  { deletedPage with audit := { deletedPage.audit with version := 1 } }

def signed : Engine Relational := (shelf.save signedPage true).2

theorem load_after_save_of_page :
    Schema [Document.layout] ∧ Sound [Document.layout] signed.store ∧
      Document.layout.Keeps signedPage.toRow ∧ Document.layout.Keeps deletedPage.toRow ∧
      (shelf.save signedPage true).1 = .ok storedSignedPage ∧
      (signed.load 1 true).1 = .ok (some storedSignedPage) ∧
      (signed.save deletedPage true).1 = .ok storedDeletedPage ∧
      ((signed.save deletedPage true).2.load 1 false).1 = .ok (some storedDeletedPage) ∧
      ((signed.save deletedPage true).2.load 1 true).1 = .ok (some storedDeletedPage) := by
  have hmem : Document.layout ∈ [Document.layout] := List.mem_singleton_self _
  have hsigned : Document.layout.Keeps signedPage.toRow := keeps_document (by decide)
  have hdeleted : Document.layout.Keeps deletedPage.toRow := keeps_document (by decide)
  have hinsert : (shelf.save signedPage true).1 = .ok storedSignedPage := by decide +kernel
  have hmerge : (signed.save deletedPage true).1 = .ok storedDeletedPage := by decide +kernel
  have hsound : Sound [Document.layout] signed.store :=
    sound_save schema_documents hmem rfl sound_shelf hsigned (by decide) hinsert
  obtain ⟨-, hfirst⟩ := load_after_save schema_documents hmem rfl sound_shelf hsigned
    (fun _ _ h => .inl (times_toRow signedPage h)) (by decide) hinsert
  obtain ⟨hcached, hreloaded⟩ := load_after_save schema_documents hmem rfl hsound hdeleted
    (fun _ _ h => .inl (times_toRow deletedPage h)) (by decide) hmerge
  exact ⟨schema_documents, hsound, hsigned, hdeleted, hinsert,
    hfirst.mpr ⟨by decide, by decide⟩, hmerge, hcached, hreloaded.mpr ⟨by decide, by decide⟩⟩

def pastEpoch : Instant :=
  { Instant.epoch with nano := 1, nano_lt := by decide, leap_last := by decide }

def earlyPage : Document := { page with audit := { created := pastEpoch } }

def storedEarlyPage : Document := { storedPage with audit := { id := 1, created := pastEpoch } }

theorem reload_differs_of_earlyPage :
    Schema [Document.layout] ∧ Sound [Document.layout] shelf.store ∧
      Document.layout.Keeps earlyPage.toRow ∧
      (shelf.save earlyPage true).1 = .ok storedEarlyPage ∧
      ((shelf.save earlyPage true).2.load 1 false).1 = .ok (some storedEarlyPage) ∧
      ((shelf.save earlyPage true).2.load 1 true).1 = .ok (some storedPage) ∧
      storedPage ≠ storedEarlyPage :=
  ⟨schema_documents, sound_shelf, keeps_document (by decide), by decide, by decide,
    by decide, by decide⟩

end Engine

end RecordQuery
