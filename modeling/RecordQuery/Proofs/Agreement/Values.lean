import RecordQuery.Database.Affinity
import RecordQuery.Proofs.Bounds
import RecordQuery.Proofs.Text.Folding
import RecordQuery.Proofs.Time.StoredOrder
import RecordQuery.Proofs.Value
import RecordQuery.Row

namespace RecordQuery

open RecordQuery.Database RecordQuery.Text RecordQuery.Time

def Row.Kind.affinity : Row.Kind → Affinity
  | integer => .integer
  | text => .text
  | boolean => .integer
  | time => .text

namespace Value

def Fits : Row.Kind → Value → Prop
  | _, null => True
  | .integer, int _ => True
  | .boolean, bool _ => True
  | .boolean, int n => n = 0 ∨ n = 1
  | .text, text _ => True
  | .time, time t => t.Storable
  | _, _ => False

def Plain : Value → Prop
  | text s => ∀ c ∈ s.toList, c.toNat < 128 ∧ c ≠ '\x00'
  | _ => True

instance : ∀ (k : Row.Kind) (v : Value), Decidable (v.Fits k)
  | _, null => isTrue trivial
  | .integer, bool _ => isFalse id
  | .integer, int _ => isTrue trivial
  | .integer, text _ => isFalse id
  | .integer, time _ => isFalse id
  | .boolean, bool _ => isTrue trivial
  | .boolean, int n => inferInstanceAs (Decidable (n = 0 ∨ n = 1))
  | .boolean, text _ => isFalse id
  | .boolean, time _ => isFalse id
  | .text, bool _ => isFalse id
  | .text, int _ => isFalse id
  | .text, text _ => isTrue trivial
  | .text, time _ => isFalse id
  | .time, bool _ => isFalse id
  | .time, int _ => isFalse id
  | .time, text _ => isFalse id
  | .time, time t => inferInstanceAs (Decidable t.Storable)

instance : ∀ v : Value, Decidable v.Plain
  | text s => List.decidableBAll (fun c : Char => c.toNat < 128 ∧ c ≠ '\x00') s.toList
  | null => isTrue trivial
  | bool _ => isTrue trivial
  | int _ => isTrue trivial
  | time _ => isTrue trivial

variable {k : Row.Kind} {u v w : Value}

theorem fits_cases (h : v.Fits k) :
    v = null ∨ ((k = .integer ∨ k = .boolean) ∧ ∃ n, v.asInt = some n) ∨
      (k = .text ∧ ∃ s, v = text s) ∨ (k = .time ∧ ∃ t, v = time t ∧ t.Storable) := by
  cases v with
  | null => exact .inl rfl
  | bool b =>
      cases k with
      | boolean => exact .inr (.inl ⟨.inr rfl, _, rfl⟩)
      | integer => exact h.elim
      | text => exact h.elim
      | time => exact h.elim
  | int n =>
      cases k with
      | integer => exact .inr (.inl ⟨.inl rfl, _, rfl⟩)
      | boolean => exact .inr (.inl ⟨.inr rfl, _, rfl⟩)
      | text => exact h.elim
      | time => exact h.elim
  | text s =>
      cases k with
      | text => exact .inr (.inr (.inl ⟨rfl, s, rfl⟩))
      | integer => exact h.elim
      | boolean => exact h.elim
      | time => exact h.elim
  | time t =>
      cases k with
      | time => exact .inr (.inr (.inr ⟨rfl, t, rfl, h⟩))
      | integer => exact h.elim
      | boolean => exact h.elim
      | text => exact h.elim

theorem fits_pair (hu : u.Fits k) (hv : v.Fits k) (hu' : u ≠ null) (hv' : v ≠ null) :
    (k.affinity = .integer ∧ ∃ n m, u.asInt = some n ∧ v.asInt = some m) ∨
      (k = .text ∧ ∃ s s', u = text s ∧ v = text s') ∨
      (k = .time ∧ ∃ t t', (u = time t ∧ t.Storable) ∧ v = time t' ∧ t'.Storable) := by
  rcases fits_cases hu with h | ⟨hk, n, hn⟩ | ⟨rfl, s, hs⟩ | ⟨rfl, t, ht⟩
  · exact absurd h hu'
  · rcases fits_cases hv with h | ⟨-, m, hm⟩ | ⟨rfl, -⟩ | ⟨rfl, -⟩
    · exact absurd h hv'
    · refine .inl ⟨?_, n, m, hn, hm⟩
      rcases hk with rfl | rfl <;> rfl
    · rcases hk with hk | hk <;> cases hk
    · rcases hk with hk | hk <;> cases hk
  · rcases fits_cases hv with h | ⟨hk, -⟩ | ⟨-, s', hs'⟩ | ⟨hk, -⟩
    · exact absurd h hv'
    · rcases hk with hk | hk <;> cases hk
    · exact .inr (.inl ⟨rfl, s, s', hs, hs'⟩)
    · cases hk
  · rcases fits_cases hv with h | ⟨hk, -⟩ | ⟨hk, -⟩ | ⟨-, t', ht'⟩
    · exact absurd h hv'
    · rcases hk with hk | hk <;> cases hk
    · cases hk
    · exact .inr (.inr ⟨rfl, t, t', ht, ht'⟩)

theorem ofValue_of_asInt {n : Int64} (h : v.asInt = some n) : Cell.ofValue v = .int n := by
  cases v with
  | bool b => exact congrArg Cell.int (Option.some.inj h)
  | int m => exact congrArg Cell.int (Option.some.inj h)
  | null => cases h
  | text s => cases h
  | time t => cases h

theorem int_of_fits (hk : k = .integer ∨ k = .boolean) (h : v.Fits k) :
    v = null ∨ ∃ n, v.asInt = some n := by
  rcases fits_cases h with h | ⟨-, h⟩ | ⟨rfl, -⟩ | ⟨rfl, -⟩
  · exact .inl h
  · exact .inr h
  · rcases hk with hk | hk <;> cases hk
  · rcases hk with hk | hk <;> cases hk

theorem text_of_fits (h : v.Fits .text) : v = null ∨ ∃ s, v = text s := by
  rcases fits_cases h with h | ⟨h, -⟩ | ⟨-, h⟩ | ⟨h, -⟩
  · exact .inl h
  · rcases h with h | h <;> cases h
  · exact .inr h
  · cases h

theorem time_of_fits (h : v.Fits .time) : v = null ∨ ∃ t, v = time t := by
  rcases fits_cases h with h | ⟨h, -⟩ | ⟨h, -⟩ | ⟨-, t, h, -⟩
  · exact .inl h
  · rcases h with h | h <;> cases h
  · cases h
  · exact .inr ⟨t, h⟩

theorem sortCompare_asInt (hk : k = .integer ∨ k = .boolean) (hu : u.Fits k) (hv : v.Fits k) :
    u.sortCompare v = compare u.asInt v.asInt := by
  have hne : ∀ {w : Value} {n : Int64}, w.asInt = some n → w ≠ null := by
    rintro w n h rfl
    cases h
  rcases int_of_fits hk hu with rfl | ⟨n, hn⟩ <;> rcases int_of_fits hk hv with rfl | ⟨m, hm⟩
  · rfl
  · rw [sortCompare_null_left (hne hm), hm]
    rfl
  · rw [sortCompare_null_right (hne hn), hn]
    rfl
  · rw [sortCompare_of_compare? (compare?_of_asInt hn hm), hn, hm]
    rfl

theorem exists_sortKey (k : Row.Kind) :
    ∃ (κ : Type) (_ : Ord κ) (_ : Std.TransOrd κ) (key : Value → κ),
      ∀ u v, u.Fits k → v.Fits k → u.sortCompare v = compare (key u) (key v) := by
  cases k with
  | integer =>
      exact ⟨Option Int64, inferInstance, inferInstance, asInt,
        fun u v hu hv => sortCompare_asInt (.inl rfl) hu hv⟩
  | boolean =>
      exact ⟨Option Int64, inferInstance, inferInstance, asInt,
        fun u v hu hv => sortCompare_asInt (.inr rfl) hu hv⟩
  | text =>
      refine ⟨Option String, inferInstance, inferInstance, asText, ?_⟩
      intro u v hu hv
      rcases text_of_fits hu with rfl | ⟨s, rfl⟩ <;> rcases text_of_fits hv with rfl | ⟨s', rfl⟩ <;>
        rfl
  | time =>
      refine ⟨Option Instant, inferInstance, inferInstance, asTime, ?_⟩
      intro u v hu hv
      rcases time_of_fits hu with rfl | ⟨t, rfl⟩ <;> rcases time_of_fits hv with rfl | ⟨t', rfl⟩ <;>
        rfl

def folded : Value → Value
  | text s => text (String.ofList (lower s.toList))
  | v => v

theorem fits_folded (h : v.Fits k) : v.folded.Fits k := by
  cases v with
  | text s =>
      cases k with
      | text => trivial
      | integer => exact h.elim
      | boolean => exact h.elim
      | time => exact h.elim
  | null => exact h
  | bool b => exact h
  | int n => exact h
  | time t => exact h

theorem folded_folded (v : Value) : v.folded.folded = v.folded := by
  cases v with
  | text s =>
      have hsmall := lower_of_small fun c (hc : c ∈ lower s.toList) => small_of_mem_lower hc
      simp only [folded, String.toList_ofList, hsmall]
  | null => rfl
  | bool b => rfl
  | int n => rfl
  | time t => rfl

end Value

namespace Database

variable {k : Row.Kind} {u v : Value}

theorem affinity_null_left (a : Affinity) (c : Cell) : a.compare? .null c = none := by
  cases a with
  | any => rfl
  | integer => rfl
  | text => cases c <;> rfl

theorem affinity_null_right (a : Affinity) (c : Cell) : a.compare? c .null = none := by
  have hnull : ∀ c : Cell, c.compare? .null = none := by
    intro c
    cases c <;> rfl
  cases a with
  | any => exact hnull c
  | integer => exact hnull c.numeric
  | text =>
      unfold Affinity.compare?
      simp only
      split
      · exact hnull c.textual
      · exact hnull c

theorem compare?_ofValue (hu : u.Fits k) (hv : v.Fits k) :
    k.affinity.compare? (.ofValue u) (.ofValue v) = u.compare? v := by
  by_cases hu' : u = .null
  · subst hu'
    rw [Value.compare?_null_left]
    exact affinity_null_left _ _
  by_cases hv' : v = .null
  · subst hv'
    rw [Value.compare?_null_right]
    exact affinity_null_right _ _
  rcases Value.fits_pair hu hv hu' hv' with ⟨hk, n, m, hn, hm⟩ | ⟨rfl, s, s', rfl, rfl⟩ |
    ⟨rfl, t, t', ⟨rfl, ht⟩, rfl, ht'⟩
  · rw [Value.ofValue_of_asInt hn, Value.ofValue_of_asInt hm, hk, Value.compare?_of_asInt hn hm]
    rfl
  · rfl
  · exact congrArg some (Instant.compare_stored ht ht')

theorem order_null_left {c : Cell} (h : c ≠ .null) : Cell.null.order c = .lt := by
  cases c with
  | null => exact absurd rfl h
  | int n => rfl
  | real a => rfl
  | text s => rfl
  | blob n => rfl

theorem order_null_right {c : Cell} (h : c ≠ .null) : c.order .null = .gt := by
  cases c with
  | null => exact absurd rfl h
  | int n => rfl
  | real a => rfl
  | text s => rfl
  | blob n => rfl

theorem order_of_nulls {f : Cell → Cell} {g : Value → Value} (hf : f .null = .null)
    (hg : g .null = .null) (hcell : ∀ {w : Value}, w ≠ .null → f (.ofValue w) ≠ .null)
    (hvalue : ∀ {w : Value}, w ≠ .null → g w ≠ .null)
    (h : u ≠ .null → v ≠ .null →
      (f (.ofValue u)).order (f (.ofValue v)) = (g u).sortCompare (g v)) :
    (f (.ofValue u)).order (f (.ofValue v)) = (g u).sortCompare (g v) := by
  by_cases hu : u = .null
  · subst hu
    by_cases hv : v = .null
    · subst hv
      rw [hg]
      change (f .null).order (f .null) = _
      rw [hf]
      rfl
    · rw [hg, Value.sortCompare_null_left (hvalue hv)]
      change (f .null).order _ = _
      rw [hf, order_null_left (hcell hv)]
  · by_cases hv : v = .null
    · subst hv
      rw [hg, Value.sortCompare_null_right (hvalue hu)]
      change Cell.order _ (f .null) = _
      rw [hf, order_null_right (hcell hu)]
    · exact h hu hv

theorem ofValue_ne_null (h : v ≠ .null) : Cell.ofValue v ≠ .null := by
  cases v with
  | null => exact absurd rfl h
  | bool b => exact Cell.noConfusion
  | int n => exact Cell.noConfusion
  | text s => exact Cell.noConfusion
  | time t => exact Cell.noConfusion

theorem order_ofValue (hu : u.Fits k) (hv : v.Fits k) :
    (Cell.ofValue u).order (.ofValue v) = u.sortCompare v := by
  refine order_of_nulls (f := id) (g := id) rfl rfl ofValue_ne_null id ?_
  intro hu' hv'
  rcases Value.fits_pair hu hv hu' hv' with ⟨-, n, m, hn, hm⟩ | ⟨rfl, s, s', rfl, rfl⟩ |
    ⟨rfl, t, t', ⟨rfl, ht⟩, rfl, ht'⟩
  · have hsort : u.sortCompare v = compare n m :=
      Value.sortCompare_of_compare? (Value.compare?_of_asInt hn hm)
    rw [Value.ofValue_of_asInt hn, Value.ofValue_of_asInt hm]
    exact hsort.symm
  · rfl
  · exact Instant.compare_stored ht ht'

theorem lower_ne_null {c : Cell} (h : c ≠ .null) : c.lower ≠ .null := by
  cases c with
  | null => exact absurd rfl h
  | int n => exact Cell.noConfusion
  | real a => exact Cell.noConfusion
  | text s => exact Cell.noConfusion
  | blob n => exact Cell.noConfusion

theorem folded_ne_null (h : v ≠ .null) : v.folded ≠ .null := by
  cases v with
  | null => exact absurd rfl h
  | bool b => exact Value.noConfusion
  | int n => exact Value.noConfusion
  | text s => exact Value.noConfusion
  | time t => exact Value.noConfusion

theorem lower_ofValue_text {s : String} (h : (Value.text s).Plain) :
    (Cell.ofValue (.text s)).lower = .ofValue (Value.text s).folded := by
  have hascii := lower_ascii fun c hc => (h c hc).1
  change Cell.text (String.ofList (lowerAscii s.toList)) =
    Cell.text (String.ofList (lower s.toList))
  rw [hascii]

theorem mark_cases (h : v.Fits .boolean) (hv : v ≠ .null) :
    v.folded = v ∧ ∃ b, v.asInt = some (Value.flag b) := by
  cases v with
  | null => exact absurd rfl hv
  | bool b => exact ⟨rfl, b, rfl⟩
  | int n =>
      rcases h with rfl | rfl
      · exact ⟨rfl, false, rfl⟩
      · exact ⟨rfl, true, rfl⟩
  | text s => exact h.elim
  | time t => exact h.elim

theorem order_lower (hk : k ≠ .integer) (hu : u.Fits k) (hv : v.Fits k) (hup : u.Plain)
    (hvp : v.Plain) :
    (Cell.ofValue u).lower.order (Cell.ofValue v).lower = u.folded.sortCompare v.folded := by
  refine order_of_nulls (f := Cell.lower) rfl rfl (fun h => lower_ne_null (ofValue_ne_null h))
    folded_ne_null ?_
  intro hu' hv'
  rcases Value.fits_pair hu hv hu' hv' with ⟨hint, -⟩ | ⟨rfl, s, s', rfl, rfl⟩ |
    ⟨rfl, t, t', ⟨rfl, ht⟩, rfl, ht'⟩
  · have hbool : k = .boolean := by
      cases k with
      | integer => exact absurd rfl hk
      | boolean => rfl
      | text => cases hint
      | time => cases hint
    subst hbool
    obtain ⟨hfu, b, hb⟩ := mark_cases hu hu'
    obtain ⟨hfv, b', hb'⟩ := mark_cases hv hv'
    rw [hfu, hfv, Value.sortCompare_of_compare? (Value.compare?_of_asInt hb hb'),
      Value.ofValue_of_asInt hb, Value.ofValue_of_asInt hb']
    cases b <;> cases b' <;> decide
  · rw [lower_ofValue_text hup, lower_ofValue_text hvp]
    exact order_ofValue (Value.fits_folded hu) (Value.fits_folded hv)
  · change compare (String.ofList (lowerAscii t.stored.toList))
      (String.ofList (lowerAscii t'.stored.toList)) = compare t t'
    rw [compare_toList, String.toList_ofList, String.toList_ofList]
    change compare (t.stored.toList.map Char.toLower) (t'.stored.toList.map Char.toLower) = _
    rw [Instant.lowerAscii_stored ht, Instant.lowerAscii_stored ht', Instant.compare_stamp ht ht']

theorem lower_lower (c : Cell) : c.lower.lower = c.lower := by
  have hidem : ∀ s : List Char, lowerAscii (lowerAscii s) = lowerAscii s := by
    intro s
    simp [lowerAscii, toLower_of_not_isUpper (isUpper_toLower _)]
  cases c with
  | null => rfl
  | int n => simp [Cell.lower, Cell.chars, hidem]
  | real a => simp [Cell.lower, Cell.chars, hidem]
  | text s => simp [Cell.lower, Cell.chars, hidem]
  | blob n => simp [Cell.lower, Cell.chars, hidem]

end Database

end RecordQuery
