import RecordQuery.Proofs.Bounds.Integers
import RecordQuery.Proofs.Bounds.Times
import RecordQuery.Proofs.Json.Record

namespace RecordQuery

open RecordQuery.Json RecordQuery.Time

namespace Json

theorem asLocale_ofLocale {l : Locale} (h : Locale.read l.tag = .ok l) :
    asLocale (ofLocale l) = some l := by
  simp [asLocale, ofLocale, asText, h]

theorem asIdSet_ofIdSet (s : IdSet) : asIdSet (ofIdSet s) = some s := by
  have hread : ∀ ids : List Int64, (ids.map (.int ·.toInt)).mapM asInt64 = some ids := by
    intro ids
    induction ids with
    | nil => rfl
    | cons id rest ih => simp [asInt64_int, ih]
  have hkeys : s.toList.map (·, ()) = s.entries := by
    rw [IdSet.toList, Keyed.keys, List.map_map]
    exact List.map_id' _
  rw [asIdSet, ofIdSet, asList, hread, Option.map_some, IdSet.ofList, hkeys, Keyed.ofList_entries]

theorem asBounds_ofBounds {α : Type} [BoundText α] {r : Bounds α}
    (h : ∀ a ∈ r.points, Legible a) : asBounds (ofBounds r) = some r := by
  simp [asBounds, ofBounds, asText, Bounds.read_display h]

theorem shallow_idSet (s : IdSet) : Shallow (ofIdSet s) := by
  refine shallow_list fun j hj => ?_
  obtain ⟨id, -, rfl⟩ := List.mem_map.mp hj
  exact ⟨rfl, rfl, (shallow_int id).exact⟩

end Json

namespace Page

def Readable (p : Page) : Prop := ∀ l, p.locale = some l → Locale.read l.tag = .ok l

theorem ofMembers?_append {p : Page} (h : p.Readable) {others : Members}
    (hothers : ∀ name ∈ names, others.lookup name = none) :
    ofMembers? (p.members ++ others) = some p := by
  have hlocale : (p.members ++ others).lookup "locale" = p.locale.map ofLocale := by
    simp [members, List.lookup_cons, List.lookup_append, lookup_given,
      hothers "locale" (by simp [names])]
  have hread := Members.optional_given hlocale (fun l hl => asLocale_ofLocale (h l hl)) nofun
  have hdistinct : (p.members ++ others).lookup "distinct" = some (.bool p.distinct) := rfl
  have hfirst : (p.members ++ others).lookup "firstResult" = some (.int p.first.toInt) := rfl
  have hlimit : (p.members ++ others).lookup "maxResults" = some (.int p.limit.toInt) := rfl
  simp only [ofMembers?, Members.withDefault, hdistinct, hfirst, hlimit, hread, asBool, asInt64_int,
    bind, Option.bind, pure]

theorem names_members (p : Page) : (p.members.map (·.1)).Sublist names :=
  (List.Sublist.refl ["distinct", "firstResult", "maxResults"]).append names_given

theorem shallow_members (p : Page) : ∀ m ∈ p.members, Shallow m.2 := by
  simp only [members, List.forall_mem_append, List.forall_mem_cons]
  exact ⟨⟨shallow_bool _, shallow_int _, shallow_int _, nofun⟩,
    forall_mem_given fun l _ => shallow_text l.tag⟩

end Page

namespace IdentityFilter

section

variable {f : IdentityFilter} (h : f.page.Readable) {others : Members}
  (hothers : ∀ name ∈ names, others.lookup name = none)

include h hothers

theorem page_append : Page.ofMembers? (f.members ++ others) = some f.page := by
  rw [members, List.append_assoc]
  refine Page.ofMembers?_append h fun name hname => ?_
  have hne : name ≠ "ids" := by
    rintro rfl
    exact absurd hname (by decide)
  rw [List.lookup_append, lookup_given, if_neg hne, hothers name (by simp [names, hname])]
  rfl

theorem ofMembers?_append : ofMembers? (f.members ++ others) = some f := by
  have hids : (f.members ++ others).lookup "ids" = f.ids.map ofIdSet := by
    simp [members, Page.members, List.lookup_cons, List.lookup_append, lookup_given,
      hothers "ids" (by simp [names])]
  have hread := Members.optional_given hids (fun s _ => asIdSet_ofIdSet s) nofun
  simp only [ofMembers?, page_append h hothers, hread, bind, Option.bind, pure]

end

theorem names_members (f : IdentityFilter) : (f.members.map (·.1)).Sublist names := by
  rw [members, List.map_append]
  exact f.page.names_members.append names_given

theorem shallow_members (f : IdentityFilter) : ∀ m ∈ f.members, Shallow m.2 :=
  List.forall_mem_append.mpr
    ⟨f.page.shallow_members, forall_mem_given fun s _ => shallow_idSet s⟩

end IdentityFilter

namespace AuditFilter

def InYears (f : AuditFilter) : Prop :=
  ∀ r, f.created = some r ∨ f.edited = some r →
    ∀ t ∈ r.points, 0 ≤ t.date.year ∧ t.date.year ≤ 9999

def ownMembers (f : AuditFilter) : Members :=
  given "creators" ofIdSet f.creators ++ given "editors" ofIdSet f.editors ++
    given "created" ofBounds f.created ++ given "edited" ofBounds f.edited ++
    given "version" ofBounds f.version ++ given "deleted" .bool f.deleted

def ownNames : List String := ["creators", "editors", "created", "edited", "version", "deleted"]

theorem members_eq (f : AuditFilter) : f.members = f.identity.members ++ f.ownMembers := by
  simp only [members, ownMembers, List.append_assoc]

theorem names_ownMembers (f : AuditFilter) : (f.ownMembers.map (·.1)).Sublist ownNames := by
  simp only [ownMembers, List.map_append, List.append_assoc]
  exact names_given.append (names_given.append (names_given.append
    (names_given.append (names_given.append names_given))))

theorem names_members (f : AuditFilter) : (f.members.map (·.1)).Sublist names := by
  rw [members_eq, List.map_append]
  exact f.identity.names_members.append f.names_ownMembers

theorem lookup_members {key : String} (h : key ∉ IdentityFilter.names) (f : AuditFilter) :
    f.members.lookup key = f.ownMembers.lookup key := by
  rw [members_eq, List.lookup_append, lookup_eq_none f.identity.names_members h, Option.none_or]

theorem lookup_ownMembers (f : AuditFilter) :
    ∀ name ∈ IdentityFilter.names, f.ownMembers.lookup name = none := by
  have hapart : ∀ name ∈ IdentityFilter.names, name ∉ ownNames := by decide
  exact fun name hname => lookup_eq_none f.names_ownMembers (hapart name hname)

theorem identity_members {f : AuditFilter} (h : f.page.Readable) :
    IdentityFilter.ofMembers? f.members = some f.identity := by
  rw [members_eq]
  exact IdentityFilter.ofMembers?_append h f.lookup_ownMembers

theorem page_members {f : AuditFilter} (h : f.page.Readable) :
    Page.ofMembers? f.members = some f.page := by
  rw [members_eq]
  exact IdentityFilter.page_append h f.lookup_ownMembers

theorem optional_own {α : Type} {f : AuditFilter} {key : String} (write : α → Json)
    {read : Json → Option α} {o : Option α} (hkey : key ∉ IdentityFilter.names)
    (hlookup : f.ownMembers.lookup key = o.map write)
    (hread : ∀ a, o = some a → read (write a) = some a) (hnull : ∀ a, write a ≠ .null) :
    Members.optional f.members key read = some o :=
  Members.optional_given ((lookup_members hkey f).trans hlookup) hread hnull

theorem ofMembers?_members {f : AuditFilter} (h : f.page.Readable) (hyears : f.InYears) :
    ofMembers? f.members = some f := by
  have htimes {r : Bounds Instant} (hr : f.created = some r ∨ f.edited = some r) :
      asBounds (ofBounds r) = some r :=
    asBounds_ofBounds fun t ht => legible_instant (hyears r hr t ht).1 (hyears r hr t ht).2
  have hcreators : Members.optional f.members "creators" asIdSet = some f.creators :=
    optional_own ofIdSet (by decide)
      (by simp [ownMembers, List.lookup_append, lookup_given]) (fun s _ => asIdSet_ofIdSet s) nofun
  have heditors : Members.optional f.members "editors" asIdSet = some f.editors :=
    optional_own ofIdSet (by decide)
      (by simp [ownMembers, List.lookup_append, lookup_given]) (fun s _ => asIdSet_ofIdSet s) nofun
  have hcreated : Members.optional f.members "created" asBounds = some f.created :=
    optional_own ofBounds (by decide)
      (by simp [ownMembers, List.lookup_append, lookup_given]) (fun r hr => htimes (.inl hr)) nofun
  have hedited : Members.optional f.members "edited" asBounds = some f.edited :=
    optional_own ofBounds (by decide)
      (by simp [ownMembers, List.lookup_append, lookup_given]) (fun r hr => htimes (.inr hr)) nofun
  have hversion : Members.optional f.members "version" asBounds = some f.version :=
    optional_own ofBounds (by decide)
      (by simp [ownMembers, List.lookup_append, lookup_given])
      (fun r _ => asBounds_ofBounds fun n _ => integerBound_int64.legible n) nofun
  have hdeleted : Members.optional f.members "deleted" asBool = some f.deleted :=
    optional_own .bool (by decide)
      (by simp [ownMembers, List.lookup_append, lookup_given]) (fun _ _ => rfl) nofun
  simp only [ofMembers?, identity_members h, hcreators, heditors, hcreated, hedited, hversion,
    hdeleted, bind, Option.bind, pure]

theorem shallow_members (f : AuditFilter) : ∀ m ∈ f.members, Shallow m.2 := by
  rw [members_eq, ownMembers]
  simp only [List.forall_mem_append]
  refine ⟨f.identity.shallow_members, ⟨⟨⟨⟨?_, ?_⟩, ?_⟩, ?_⟩, ?_⟩, ?_⟩
  · exact forall_mem_given fun s _ => shallow_idSet s
  · exact forall_mem_given fun s _ => shallow_idSet s
  · exact forall_mem_given fun r _ => shallow_text r.display
  · exact forall_mem_given fun r _ => shallow_text r.display
  · exact forall_mem_given fun r _ => shallow_text r.display
  · exact forall_mem_given fun b _ => shallow_bool b

end AuditFilter

theorem read?_of_shallow {members : Members} (h : ∀ m ∈ members, Shallow m.2) :
    Json.read? (Json.object members).display = some (.object members) :=
  read?_display (object_of_shallow h).2

theorem filters_read_back :
    (∀ p : Page, p.Readable → Page.readJson? p.json.display = some p) ∧
      (∀ f : IdentityFilter, f.page.Readable →
        IdentityFilter.readJson? f.json.display = some f) ∧
      ∀ f : AuditFilter, f.page.Readable → f.InYears →
        AuditFilter.readJson? f.json.display = some f ∧
          IdentityFilter.readJson? f.json.display = some f.identity ∧
          Page.readJson? f.json.display = some f.page := by
  have hnames : AuditFilter.names.Nodup := by decide
  refine ⟨fun p h => ?_, fun f h => ?_, fun f h hyears => ⟨?_, ?_, ?_⟩⟩
  · have hmembers := Page.ofMembers?_append h fun _ _ => List.lookup_nil
    rw [List.append_nil] at hmembers
    rw [Page.readJson?, Page.json, read?_of_shallow p.shallow_members, Option.bind_some,
      Page.ofJson?,
      members?, objectMembers?_object (by decide) p.names_members, Option.bind_some, hmembers]
    exact nofun
  · have hmembers := IdentityFilter.ofMembers?_append h fun _ _ => List.lookup_nil
    rw [List.append_nil] at hmembers
    rw [IdentityFilter.readJson?, IdentityFilter.json, read?_of_shallow f.shallow_members,
      Option.bind_some, IdentityFilter.ofJson?, if_pos (object_of_shallow f.shallow_members).1,
      objectMembers?_object (by decide) f.names_members, Option.bind_some, hmembers]
  · rw [AuditFilter.readJson?, AuditFilter.json, read?_of_shallow f.shallow_members,
      Option.bind_some, AuditFilter.ofJson?, if_pos (object_of_shallow f.shallow_members).1,
      objectMembers?_object hnames f.names_members, Option.bind_some,
      AuditFilter.ofMembers?_members h hyears]
  · rw [IdentityFilter.readJson?, AuditFilter.json, read?_of_shallow f.shallow_members,
      Option.bind_some, IdentityFilter.ofJson?, if_pos (object_of_shallow f.shallow_members).1,
      objectMembers?_object hnames f.names_members, Option.bind_some,
      AuditFilter.identity_members h]
  · rw [Page.readJson?, AuditFilter.json, read?_of_shallow f.shallow_members, Option.bind_some,
      Page.ofJson?, members?, objectMembers?_object hnames f.names_members, Option.bind_some,
      AuditFilter.page_members h]
    exact nofun

def lastNotes : AuditFilter where
  identity := { page := { distinct := true, limit := 10, locale := some ⟨"en", some "GB"⟩ } }
  creators := some .empty
  editors := some (IdSet.ofList [-9223372036854775808, 7])
  created := some (.between .epoch
    ⟨⟨2015, 6, 30, by decide, by decide, by decide, by decide⟩, 86339, 1123456789,
      by decide, by decide, by decide⟩)
  version := some (.atMost (-9223372036854775808))
  deleted := some false

theorem filters_read_back_of_lastNotes : lastNotes.page.Readable ∧ lastNotes.InYears ∧
    AuditFilter.readJson? lastNotes.json.display = some lastNotes ∧
      Page.readJson? lastNotes.json.display = some lastNotes.page := by
  have hlocale : lastNotes.page.Readable := by
    rintro l ⟨⟩
    decide
  have hyears : lastNotes.InYears := by
    rintro r (hr | hr)
    · obtain rfl := Option.some.inj hr
      decide
    · cases hr
  obtain ⟨hfilter, -, hpage⟩ := filters_read_back.2.2 lastNotes hlocale hyears
  exact ⟨hlocale, hyears, hfilter, hpage⟩

end RecordQuery
