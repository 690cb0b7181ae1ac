import RecordQuery.Proofs.Agreement.Rows
import RecordQuery.Proofs.Builder.Accepts

namespace RecordQuery

open RecordQuery.Database RecordQuery.Text RecordQuery.Time

def Bounds.Each {α : Type} (P : α → Prop) (r : Bounds α) : Prop :=
  ∀ a, (r.start = some a ∨ r.stop = some a ∨ r.least = some a ∨ r.most = some a) → P a

namespace Bounds.Each

variable {α : Type} [Ord α] {P : α → Prop} {r : Bounds α} {a : α}

theorem lower (h : r.Each P) (ha : r.lower = some a) : P a := by
  obtain ⟨start, stop, least, most⟩ := r
  have hset : start = some a ∨ least = some a := by
    cases start <;> cases least <;> simp_all [Bounds.lower, tighter, larger]
    grind
  rcases hset with rfl | rfl
  · exact h a (.inl rfl)
  · exact h a (.inr (.inr (.inl rfl)))

theorem upper (h : r.Each P) (ha : r.upper = some a) : P a := by
  obtain ⟨start, stop, least, most⟩ := r
  have hset : stop = some a ∨ most = some a := by
    cases stop <;> cases most <;> simp_all [Bounds.upper, tighter, smaller]
    grind
  rcases hset with rfl | rfl
  · exact h a (.inr (.inl rfl))
  · exact h a (.inr (.inr (.inr rfl)))

end Bounds.Each

variable {l : Layout} {kind : String → Row.Kind} {params : Parameters}

namespace TextPattern

variable {escape : Char} {text : List Char}

section

variable {pre post : List Char} (hpre : pre = [] ∨ pre = ['%']) (hpost : post = [] ∨ post = ['%'])

include hpre hpost

theorem searchable_frame (hcheck : Settings.checkEscape escape = .ok ()) (hescape : Sharp escape)
    (locale : Locale) (htext : '\x00' ∉ text) :
    Searchable (pre ++ ofWords escape (locale.lowerChars text) ++ post) (some escape) := by
  refine ⟨⟨_, tokens?_frame hpre hpost (Settings.ne_percent_of_checkEscape hcheck) _⟩,
    small_frame hpre hpost hcheck locale text, ?_, ?_⟩
  · intro hzero
    rcases mem_frame hpre hpost hzero with h | h | h
    · exact absurd h (by decide)
    · exact hescape.1 h.symm
    · exact htext (Locale.mem_of_mem_lowerChars (lone_of_le (by decide)) h)
  · rintro c ⟨⟩
    exact hescape

theorem mem_of_blurred_frame (hescape : Sharp escape) (locale : Locale) {c : Char}
    (hc : c ∈ pre ++ ofWords escape (locale.lowerChars text) ++ post) (hblurred : Blurred c) :
    c ∈ text := by
  rcases mem_frame hpre hpost hc with rfl | rfl | h
  · exact absurd hblurred (by decide)
  · exact absurd hblurred hescape.2
  · exact Locale.mem_of_mem_lowerChars (lone_of_blurred hblurred) h

end

def Makes (make : Locale → Char → String → Except ArgumentFault String) : Prop :=
  ∀ (locale : Locale) (escape : Char) (text : String), Settings.checkEscape escape = .ok () →
    Sharp escape → '\x00' ∉ text.toList →
      ∃ pattern, make locale escape text = .ok pattern ∧
        Searchable pattern.toList (some escape) ∧
        ∀ c ∈ pattern.toList, Blurred c → c ∈ text.toList

theorem makes_build {shape : List Char → List Char}
    (hshape : ∃ pre post, (pre = [] ∨ pre = ['%']) ∧ (post = [] ∨ post = ['%']) ∧
      ∀ p, shape p = pre ++ p ++ post) : Makes (build shape) := by
  obtain ⟨pre, post, hpre, hpost, hshape⟩ := hshape
  intro locale escape text hcheck hescape htext
  unfold build
  split
  · refine ⟨"", rfl, ⟨⟨[], rfl⟩, nofun, nofun, ?_⟩, nofun⟩
    rintro c ⟨⟩
    exact hescape
  · rw [hcheck]
    refine ⟨_, rfl, ?_⟩
    rw [String.toList_ofList, hshape, prepared_eq_ofWords hcheck]
    exact ⟨searchable_frame hpre hpost hcheck hescape locale htext,
      fun _ => mem_of_blurred_frame hpre hpost hescape locale⟩

theorem makes_contains : Makes contains :=
  makes_build ⟨['%'], ['%'], .inr rfl, .inr rfl, fun _ => rfl⟩

theorem makes_startsWith : Makes startsWith :=
  makes_build ⟨[], ['%'], .inl rfl, .inr rfl, fun _ => rfl⟩

theorem makes_endsWith : Makes endsWith :=
  makes_build ⟨['%'], [], .inr rfl, .inl rfl, fun p => (List.append_nil ('%' :: p)).symm⟩

end TextPattern

theorem Predicate.suits_anyOf {items : List Predicate} (h : ∀ p ∈ items, p.Suits l kind params) :
    (anyOf items).Suits l kind params := by
  match items with
  | [] => trivial
  | [p] => exact h p (List.mem_singleton_self p)
  | p :: q :: rest => exact (suitsAll_iff l kind params).mpr h

theorem Predicate.suits_allOf {items : List Predicate} (h : ∀ p ∈ items, p.Suits l kind params) :
    (allOf items).Suits l kind params := by
  match items with
  | [] => trivial
  | [p] => exact h p (List.mem_singleton_self p)
  | p :: q :: rest => exact (suitsAll_iff l kind params).mpr h

namespace Builder

structure Ready (l : Layout) (kind : String → Row.Kind) (params : Parameters) (b : Builder) :
    Prop where
  check : b.settings.check = .ok ()
  sharp : Sharp b.settings.escape
  suits : ∀ p ∈ b.predicates, p.Suits l kind params

variable {b : Builder} {field : String}

theorem ready_nested (h : b.Ready l kind params) : b.nested.Ready l kind params :=
  ⟨h.check, h.sharp, fun p hp => by cases hp⟩

theorem ready_push (h : b.Ready l kind params) {p : Predicate} (hp : p.Suits l kind params) :
    (b.push p).Ready l kind params := by
  refine ⟨h.check, h.sharp, ?_⟩
  intro q hq
  rcases Group.mem_resolved_push.mp hq with rfl | hq
  · exact hp
  · exact h.suits q hq

theorem ready_pushSome (h : b.Ready l kind params) {p : Option Predicate}
    (hp : ∀ q, p = some q → q.Suits l kind params) : (b.pushSome p).Ready l kind params := by
  cases p with
  | none => exact h
  | some q => exact ready_push h (hp q rfl)

theorem suits_attach {g nested : Group} (hg : ∀ p ∈ g.resolved, p.Suits l kind params)
    (hn : ∀ p ∈ nested.resolved, p.Suits l kind params) :
    ∀ p ∈ (g.attach nested).resolved, p.Suits l kind params := by
  intro p hp
  rw [Group.resolved_attach] at hp
  rcases List.mem_append.mp hp with hp | hp
  · exact hg p hp
  · split at hp
    · cases hp
    · rw [List.mem_singleton.mp hp]
      exact Predicate.suits_anyOf hn

theorem ready_attach {group : Builder} (h : b.Ready l kind params)
    (hg : group.Ready l kind params) : (b.attach group).Ready l kind params :=
  ⟨h.check, h.sharp, suits_attach h.suits hg.suits⟩

theorem ready_attachDirect (h : b.Ready l kind params) {items : List Predicate}
    (hitems : ∀ p ∈ items, p.Suits l kind params) :
    (b.attachDirect items).Ready l kind params := by
  refine ⟨h.check, h.sharp, suits_attach h.suits ?_⟩
  simpa [Group.resolved, Group.resolvedAll] using hitems

theorem ready_resolve (h : b.Ready l kind params) : b.resolve.Ready l kind params := by
  refine ⟨h.check, h.sharp, ?_⟩
  have hpredicates : b.resolve.predicates = b.predicates := by
    simp [resolve, predicates, Group.resolved, Group.resolvedAll]
  rw [hpredicates]
  exact h.suits

theorem ready_compare (h : b.Ready l kind params) (hfield : field ∈ l.names) (op : CompareOp)
    {value : Option Value} (hvalue : ∀ v, value = some v → v.Fits (kind field)) :
    (b.compare field op value).Ready l kind params := by
  refine ready_pushSome h ?_
  intro q hq
  obtain ⟨v, hv, rfl⟩ := Option.map_eq_some_iff.mp hq
  exact ⟨field, v, ⟨rfl, hfield⟩, rfl, hvalue v hv⟩

theorem suits_boolPredicate (hfield : field ∈ l.names) (hkind : kind field = .boolean)
    (value : Bool) : (boolPredicate field value).Suits l kind params := by
  have hequal : ∀ v : Bool, (Predicate.equal (.field field) (.bool v)).Suits l kind params := by
    intro v
    refine ⟨field, .bool v, ⟨rfl, hfield⟩, rfl, ?_⟩
    rw [hkind]
    trivial
  cases value with
  | true => exact hequal true
  | false => exact ⟨⟨field, rfl, hfield⟩, hequal false, trivial⟩

theorem suits_listPredicate (hfield : field ∈ l.names) {values : List Value} (hne : values ≠ [])
    (hvalues : ∀ v ∈ values, v.Fits (kind field)) :
    (listPredicate (.field field) values).Suits l kind params := by
  match values with
  | [] => exact absurd rfl hne
  | [v] => exact ⟨field, v, ⟨rfl, hfield⟩, rfl, hvalues v (List.mem_singleton_self v)⟩
  | v :: w :: rest => exact ⟨field, ⟨rfl, hfield⟩, List.cons_ne_nil _ _, hvalues⟩

theorem suits_notListPredicate (hfield : field ∈ l.names) {values : List Value} (hne : values ≠ [])
    (hvalues : ∀ v ∈ values, v.Fits (kind field)) :
    (notListPredicate (.field field) values).Suits l kind params := by
  match values with
  | [] => exact absurd rfl hne
  | [v] => exact ⟨field, v, ⟨rfl, hfield⟩, rfl, hvalues v (List.mem_singleton_self v)⟩
  | v :: w :: rest => exact ⟨field, ⟨rfl, hfield⟩, List.cons_ne_nil _ _, hvalues⟩

theorem mem_chunksIn {α : Type} {size n : Nat} (hsize : 0 < size) {values part : List α}
    (h : part ∈ chunksIn size n values) : part ≠ [] ∧ ∀ v ∈ part, v ∈ values := by
  induction n generalizing values with
  | zero => cases h
  | succ n ih =>
      cases values with
      | nil => cases h
      | cons v rest =>
          rcases List.mem_cons.mp h with rfl | h
          · refine ⟨?_, fun v hv => List.mem_of_mem_take hv⟩
            obtain ⟨k, rfl⟩ : ∃ k, size = k + 1 := ⟨size - 1, by omega⟩
            exact List.cons_ne_nil _ _
          · obtain ⟨hne, hmem⟩ := ih h
            exact ⟨hne, fun v hv => List.mem_of_mem_drop (hmem v hv)⟩

theorem ready_among (h : b.Ready l kind params) (hfield : field ∈ l.names) {values : List Value}
    (hvalues : ∀ v ∈ values, v.Fits (kind field)) : (b.among field values).Ready l kind params := by
  unfold among
  split
  · exact h
  · rename_i hempty
    have hne : values ≠ [] := fun hnil => hempty (List.isEmpty_iff.mpr hnil)
    split
    · exact ready_push h (suits_listPredicate hfield hne hvalues)
    · refine ready_attachDirect h ?_
      intro p hp
      obtain ⟨part, hpart, rfl⟩ := List.mem_map.mp hp
      obtain ⟨hpart, hmem⟩ := mem_chunksIn (Settings.listLimit_pos h.check) hpart
      exact suits_listPredicate hfield hpart fun v hv => hvalues v (hmem v hv)

theorem ready_notAmong (h : b.Ready l kind params) (hfield : field ∈ l.names) {values : List Value}
    (hvalues : ∀ v ∈ values, v.Fits (kind field)) :
    (b.notAmong field values).Ready l kind params := by
  unfold notAmong
  split
  · exact h
  · rename_i hempty
    have hne : values ≠ [] := fun hnil => hempty (List.isEmpty_iff.mpr hnil)
    split
    · exact ready_push h (suits_notListPredicate hfield hne hvalues)
    · refine ready_push h (Predicate.suits_allOf ?_)
      intro p hp
      obtain ⟨part, hpart, rfl⟩ := List.mem_map.mp hp
      obtain ⟨hpart, hmem⟩ := mem_chunksIn (Settings.listLimit_pos h.check) hpart
      exact suits_notListPredicate hfield hpart fun v hv => hvalues v (hmem v hv)

theorem ready_between {α : Type} [Ord α] [DecidableEq α] {toValue : α → Value}
    (h : b.Ready l kind params) (hfield : field ∈ l.names) {range : Option (Bounds α)}
    (hrange : ∀ r, range = some r → r.Each fun a => (toValue a).Fits (kind field)) :
    (between toValue b field range).Ready l kind params := by
  cases range with
  | none => exact h
  | some r =>
      have heach := hrange r rfl
      have hlower : ∀ v, r.lower.map toValue = some v → v.Fits (kind field) := by
        intro v hv
        obtain ⟨a, ha, rfl⟩ := Option.map_eq_some_iff.mp hv
        exact heach.lower ha
      have hupper : ∀ v, r.upper.map toValue = some v → v.Fits (kind field) := by
        intro v hv
        obtain ⟨a, ha, rfl⟩ := Option.map_eq_some_iff.mp hv
        exact heach.upper ha
      unfold between
      simp only
      split
      · exact ready_compare h hfield .eq hlower
      · exact ready_compare (ready_compare h hfield .ge hlower) hfield .le hupper

section

variable (h : b.Ready l kind params) (hfield : field ∈ l.names) (hkind : kind field = .text)

include h hfield hkind

theorem ready_like {pattern : String} (hp : Searchable pattern.toList (some b.settings.escape)) :
    ∃ after, b.like field pattern b.settings.escape = .ok after ∧ after.Ready l kind params := by
  have hlower : b.locale.lower pattern = pattern := Locale.lower_eq_self hp.small
  unfold like
  rw [Settings.checkEscape_of_check h.check]
  refine ⟨_, rfl, ?_⟩
  split
  · exact h
  · refine ready_push h ⟨field, rfl, hfield, hkind, ?_⟩
    rw [hlower]
    exact hp

variable {text : String} (htext : '\x00' ∉ text.toList)

include htext

theorem ready_likeMade {make : Locale → Char → String → Except ArgumentFault String}
    (hmake : TextPattern.Makes make) :
    ∃ after, b.likeMade field make text = .ok after ∧ after.Ready l kind params := by
  have hcheck := Settings.checkEscape_of_check h.check
  obtain ⟨pattern, hpattern, hp, -⟩ := hmake b.locale b.settings.escape text hcheck h.sharp htext
  unfold likeMade
  rw [hpattern]
  exact ready_like h hfield hkind hp

theorem ready_likeText :
    ∃ after, b.likeText field text = .ok after ∧ after.Ready l kind params := by
  unfold likeText
  split
  · exact ⟨b, rfl, h⟩
  · exact ready_likeMade h hfield hkind htext TextPattern.makes_contains

theorem ready_match {matching : Matching} (hmatching : matching ≠ .custom) :
    ∃ after, b.match? field text matching = .ok after ∧ after.Ready l kind params := by
  cases matching with
  | exact =>
      refine ⟨_, rfl, ready_compare h hfield .eq ?_⟩
      rintro v ⟨⟩
      rw [hkind]
      trivial
  | startsWith => exact ready_likeMade h hfield hkind htext TextPattern.makes_startsWith
  | endsWith => exact ready_likeMade h hfield hkind htext TextPattern.makes_endsWith
  | like => exact ready_likeText h hfield hkind htext
  | custom => exact absurd rfl hmatching

end

theorem ready_add (h : b.Ready l kind params) (hfield : field ∈ l.names)
    (hkind : kind field = .text)
    {filter : Option TextFilter} (hfilter : ∀ f, filter = some f → f.matching ≠ .custom ∧
      ∀ text, f.value = some text → '\x00' ∉ text.toList) :
    ∃ after, b.add field filter = .ok after ∧ after.Ready l kind params := by
  cases filter with
  | none => exact ⟨b, rfl, h⟩
  | some f =>
      obtain ⟨value, matching⟩ := f
      obtain ⟨hmatching, hvalue⟩ := hfilter _ rfl
      cases value with
      | none => exact ⟨b, rfl, h⟩
      | some text =>
          unfold add
          simp only
          split
          · exact ⟨b, rfl, h⟩
          · exact ready_match h hfield hkind (hvalue text rfl) hmatching

end Builder

end RecordQuery
