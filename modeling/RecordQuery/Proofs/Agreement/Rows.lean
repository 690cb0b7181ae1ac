import Mathlib.Data.List.TakeWhile
import RecordQuery.Database.Condition
import RecordQuery.Proofs.Agreement.Values
import RecordQuery.Proofs.Predicate.Meaning
import RecordQuery.Proofs.Text.Pattern

namespace RecordQuery

open RecordQuery.Database RecordQuery.Sql RecordQuery.Text

namespace Like

theorem before_congr {p q : Char → Bool} {s : List Char} (h : ∀ d ∈ s, p d = q d)
    (marks : List Bool) : before p s marks = before q s marks := by
  induction s generalizing marks with
  | nil => rfl
  | cons d s ih =>
      cases marks with
      | nil => rfl
      | cons mark marks =>
          rw [before, before, h d (List.mem_cons_self ..),
            ih fun c hc => h c (List.mem_cons_of_mem _ hc)]

theorem marked_congr {same same' : Char → Char → Bool} {ts : List LikeToken} {s : List Char}
    (h : ∀ c, .exactly c ∈ ts → ∀ d ∈ s, same c d = same' c d) :
    marked same s ts = marked same' s ts := by
  induction ts with
  | nil => rfl
  | cons token ts ih =>
      have hrest := ih fun c hc => h c (List.mem_cons_of_mem _ hc)
      cases token with
      | anyRun => rw [marked, marked, hrest]
      | anyOne => rw [marked, marked, hrest]
      | exactly c => rw [marked, marked, hrest, before_congr (h c (List.mem_cons_self ..))]

theorem fits_congr {same same' : Char → Char → Bool} {ts : List LikeToken} {s : List Char}
    (h : ∀ c, .exactly c ∈ ts → ∀ d ∈ s, same c d = same' c d) :
    fits same ts s = fits same' ts s := by
  rw [fits, fits, marked_congr h]

theorem atEnd_map (f : Char → Char) (s : List Char) : atEnd (s.map f) = atEnd s := by
  induction s with
  | nil => rfl
  | cons c s ih => rw [List.map_cons, atEnd, atEnd, ih]

theorem before_map (f : Char → Char) (p : Char → Bool) (s : List Char) (marks : List Bool) :
    before p (s.map f) marks = before (p ∘ f) s marks := by
  induction s generalizing marks with
  | nil => rfl
  | cons c s ih =>
      cases marks with
      | nil => rfl
      | cons mark marks =>
          rw [List.map_cons, before, before, ih]
          rfl

end Like

def LikeToken.map (f : Char → Char) : LikeToken → LikeToken
  | anyRun => anyRun
  | anyOne => anyOne
  | exactly c => exactly (f c)

namespace Like

variable {f : Char → Char}

theorem fits_map (same : Char → Char → Bool) (ts : List LikeToken) (s : List Char) :
    fits same (ts.map (.map f)) (s.map f) = fits (fun c d => same (f c) (f d)) ts s := by
  have hmarked : marked same (s.map f) (ts.map (.map f)) =
      marked (fun c d => same (f c) (f d)) s ts := by
    induction ts with
    | nil => exact atEnd_map f s
    | cons token ts ih =>
        rw [List.map_cons]
        cases token with
        | anyRun => rw [LikeToken.map, marked, marked, ih]
        | anyOne => rw [LikeToken.map, marked, marked, ih, before_map]; rfl
        | exactly c => rw [LikeToken.map, marked, marked, ih, before_map]; rfl
  rw [fits, fits, hmarked]

theorem tokens?_map {escape : Option Char}
    (hescape : ∀ c, escape.map f = some (f c) ↔ escape = some c)
    (hplain : ∀ c, plainToken (f c) = (plainToken c).map f) (s : List Char) :
    tokens? (escape.map f) (s.map f) = (tokens? escape s).map (List.map (.map f)) := by
  fun_induction tokens? escape s with
  | case1 => rfl
  | case2 c h => rw [List.map_singleton, tokens?, if_pos ((hescape c).mpr h)]; rfl
  | case3 c h =>
      rw [List.map_singleton, tokens?, if_neg (mt (hescape c).mp h), hplain]
      rfl
  | case4 c d rest h ih =>
      rw [List.map_cons, List.map_cons, tokens?, if_pos ((hescape c).mpr h), ih]
      cases tokens? escape rest <;> rfl
  | case5 c d rest h ih =>
      rw [List.map_cons] at ih
      rw [List.map_cons, List.map_cons, tokens?, if_neg (mt (hescape c).mp h), ih, hplain]
      cases tokens? escape (d :: rest) <;> rfl

end Like

/-- A character that a table takes for the one of what is unreadable. -/
def Blurred (c : Char) : Prop := seen c = '\uFFFD'

instance (c : Char) : Decidable (Blurred c) := inferInstanceAs (Decidable (_ = _))

theorem blurred_iff {c : Char} : Blurred c ↔ 0xFFFD ≤ c.toNat ∧ c.toNat ≤ 0xFFFF := by
  have hcode : ∀ d : Char, c = d ↔ c.toNat = d.toNat := fun d => Char.toNat_inj.symm
  have hends : '\uFFFD'.toNat = 0xFFFD ∧ '\uFFFE'.toNat = 0xFFFE ∧ '\uFFFF'.toNat = 0xFFFF := by
    decide
  rw [Blurred, seen]
  split
  · rename_i h
    rw [hcode, hcode] at h
    exact iff_of_true rfl (by omega)
  · rename_i h
    rw [hcode, hcode] at h
    rw [hcode]
    omega

theorem lone_of_blurred {c : Char} (h : Blurred c) : Lone c := lone_of_unreadable (blurred_iff.mp h)

theorem seen_of_not_blurred {c : Char} (h : ¬Blurred c) : seen c = c := by
  refine if_neg ?_
  rintro (rfl | rfl) <;> exact h (by decide)

theorem seen_eq_seen_iff {c d : Char} : seen c = seen d ↔ c = d ∨ Blurred c ∧ Blurred d := by
  constructor
  · intro h
    by_cases hc : Blurred c
    · exact .inr ⟨hc, h.symm.trans hc⟩
    · by_cases hd : Blurred d
      · exact absurd (h.trans hd) hc
      · rw [seen_of_not_blurred hc, seen_of_not_blurred hd] at h
        exact .inl h
  · rintro (rfl | ⟨hc, hd⟩)
    · rfl
    · exact hc.trans hd.symm

theorem Like.plainToken_seen (c : Char) :
    Like.plainToken (seen c) = (Like.plainToken c).map seen := by
  by_cases hc : Blurred c
  · have hplain : ∀ d, Blurred d → Like.plainToken d = .exactly d := by
      intro d hd
      rw [Like.plainToken, if_neg, if_neg]
      all_goals
        rintro rfl
        exact absurd hd (by decide)
    have hseen : Blurred (seen c) := by rw [show seen c = _ from hc]; decide
    rw [hplain c hc, hplain _ hseen, LikeToken.map]
  · rw [seen_of_not_blurred hc, Like.plainToken]
    split
    · rfl
    · split
      · rfl
      · rw [LikeToken.map, seen_of_not_blurred hc]

theorem toLower_seen {c : Char} (hc : Small c) : (seen c).toLower = seen c := by
  by_cases hblurred : Blurred c
  · rw [show seen c = _ from hblurred]
    decide
  · rw [seen_of_not_blurred hblurred, toLower_of_not_isUpper (not_isUpper_of_small hc)]

def Sharp (c : Char) : Prop := c ≠ '\x00' ∧ ¬Blurred c

instance (c : Char) : Decidable (Sharp c) := inferInstanceAs (Decidable (_ ∧ _))

structure Searchable (pattern : List Char) (escape : Option Char) : Prop where
  readable : ∃ ts, Like.tokens? escape pattern = some ts
  small : ∀ c ∈ pattern, Small c
  noZero : '\x00' ∉ pattern
  sharp : ∀ c, escape = some c → Sharp c

theorem untilZero_of_not_mem {s : List Char} (h : '\x00' ∉ s) : untilZero s = s := by
  refine List.takeWhile_eq_self_iff.mpr ?_
  intro c hc
  rw [bne_iff_ne]
  rintro rfl
  exact h hc

structure Alike (l : Layout) (kind : String → Row.Kind) (row : Row) (e : Entry) : Prop where
  number : Row.value row Row.idColumn = .int e.number
  cells : ∀ name ∈ l.names, cellOf l e (.field name) = .ofValue (Row.value row name)
  fits : ∀ name ∈ l.names, (Row.value row name).Fits (kind name)
  plain : ∀ name ∈ l.names, (Row.value row name).Plain

structure Typed (l : Layout) (kind : String → Row.Kind) : Prop where
  hasId : Row.idColumn ∈ l.names
  affinity : ∀ name ∈ l.names, affinityOf l (.field name) = (kind name).affinity

variable {l : Layout} {kind : String → Row.Kind} {row : Row} {e : Entry}

theorem Expr.value_lower (row : Row) (inner : Expr) :
    (Expr.lower inner).value row = (inner.value row).folded := by
  rw [Expr.value]
  cases inner.value row <;> rfl

namespace Alike

theorem lowered (h : Alike l kind row e) {inner : Expr} (hname : inner.column ∈ l.names) :
    (Expr.lower inner).value row = (Row.value row inner.column).folded ∧
      cellOf l e (.lower inner) = (Cell.ofValue (Row.value row inner.column)).lower := by
  induction inner with
  | field name =>
      exact ⟨Expr.value_lower row (.field name), congrArg Cell.lower (h.cells name hname)⟩
  | lower inner ih =>
      obtain ⟨hvalue, hcell⟩ := ih hname
      refine ⟨?_, ?_⟩
      · rw [Expr.value_lower, hvalue, Value.folded_folded]
        rfl
      · rw [cellOf, hcell, lower_lower]
        rfl

end Alike

/-- An expression by which both stores sort alike. Only columns that hold no integers may be
folded, as a table folds the digits of a number. -/
def Sortable (l : Layout) (kind : String → Row.Kind) : Expr → Prop
  | .field name => name ∈ l.names
  | .lower inner => inner.column ∈ l.names ∧ kind inner.column ≠ .integer

instance : ∀ expr : Expr, Decidable (Sortable l kind expr)
  | .field name => inferInstanceAs (Decidable (name ∈ l.names))
  | .lower inner =>
      inferInstanceAs (Decidable (inner.column ∈ l.names ∧ kind inner.column ≠ .integer))

theorem Alike.sortCompare_eq {row' : Row} {e' : Entry} (h : Alike l kind row e)
    (h' : Alike l kind row' e') {expr : Expr} (hexpr : Sortable l kind expr) :
    (expr.value row).sortCompare (expr.value row') =
    (cellOf l e expr).order (cellOf l e' expr) := by
  cases expr with
  | field name =>
      rw [h.cells name hexpr, h'.cells name hexpr,
        order_ofValue (h.fits name hexpr) (h'.fits name hexpr)]
      rfl
  | lower inner =>
      obtain ⟨hname, hkind⟩ := hexpr
      rw [(h.lowered hname).1, (h.lowered hname).2, (h'.lowered hname).1, (h'.lowered hname).2,
        order_lower hkind (h.fits _ hname) (h'.fits _ hname) (h.plain _ hname) (h'.plain _ hname)]

theorem Alike.fits_value (h : Alike l kind row e) {expr : Expr} (hexpr : Sortable l kind expr) :
    (expr.value row).Fits (kind expr.column) := by
  cases expr with
  | field name => exact h.fits name hexpr
  | lower inner =>
      rw [(h.lowered hexpr.1).1]
      exact Value.fits_folded (h.fits _ hexpr.1)

namespace Sql.Condition

variable {params : Parameters}

mutual

theorem exists_ofPredicate : ∀ p : Predicate, p.Closed params → ∃ c, ofPredicate params p = .ok c
  | .literal b, _ => ⟨.constant b, rfl⟩
  | .compare e op _, ⟨v, hv⟩ => ⟨.compare e op v, by rw [ofPredicate, hv]; rfl⟩
  | .compareFields left op right, _ => ⟨.compareFields left op right, rfl⟩
  | .among e values, _ => ⟨amongOf e values, rfl⟩
  | .isNull e, _ => ⟨.isNull e, rfl⟩
  | .isNotNull e, _ => ⟨.isNotNull e, rfl⟩
  | .like e pattern escape, _ => ⟨.like e pattern escape, rfl⟩
  | .negate inner, hp => by
      obtain ⟨c, hc⟩ := exists_ofPredicate inner hp
      refine ⟨.negate c, ?_⟩
      rw [ofPredicate, hc]
      rfl
  | .all items, hp => by
      obtain ⟨conditions, hc⟩ := exists_ofPredicates items hp
      refine ⟨allOf conditions, ?_⟩
      rw [ofPredicate, hc]
      rfl
  | .any items, hp => by
      obtain ⟨conditions, hc⟩ := exists_ofPredicates items hp
      refine ⟨anyOf conditions, ?_⟩
      rw [ofPredicate, hc]
      rfl

theorem exists_ofPredicates : ∀ items : List Predicate, Predicate.ClosedAll params items →
    ∃ conditions, ofPredicates params items = .ok conditions
  | [], _ => ⟨[], rfl⟩
  | p :: rest, hp => by
      obtain ⟨c, hc⟩ := exists_ofPredicate p hp.1
      obtain ⟨conditions, hcs⟩ := exists_ofPredicates rest hp.2
      refine ⟨c :: conditions, ?_⟩
      rw [ofPredicates, hc, hcs]
      rfl

end

end Sql.Condition

namespace Predicate

variable (l kind) (params : Parameters)

def Names (expr : Expr) (name : String) : Prop := expr = .field name ∧ name ∈ l.names

mutual

def Suits : Predicate → Prop
  | literal _ => True
  | compare expr _ operand =>
      ∃ name v, Names l expr name ∧ operand.value? params = .ok v ∧ v.Fits (kind name)
  | compareFields left _ right =>
      ∃ name name', Names l left name ∧ Names l right name' ∧ kind name = kind name'
  | among expr values =>
      ∃ name, Names l expr name ∧ values ≠ [] ∧ ∀ v ∈ values, v.Fits (kind name)
  | isNull expr => ∃ name, Names l expr name
  | isNotNull expr => ∃ name, Names l expr name
  | like expr pattern escape =>
      ∃ name, expr = .lower (.field name) ∧ name ∈ l.names ∧ kind name = .text ∧
        Searchable pattern.toList escape
  | negate inner => Suits inner
  | all items => SuitsAll items
  | any items => SuitsAll items

def SuitsAll : List Predicate → Prop
  | [] => True
  | p :: rest => Suits p ∧ SuitsAll rest

end

theorem suitsAll_iff {items : List Predicate} :
    SuitsAll l kind params items ↔ ∀ p ∈ items, p.Suits l kind params := by
  induction items with
  | nil => simp [SuitsAll]
  | cons p rest ih => simp [SuitsAll, ih]

variable {l kind params}

mutual

theorem closed_of_suits : ∀ p : Predicate, p.Suits l kind params → p.Closed params
  | .literal _, _ => trivial
  | .compare .., ⟨_, v, _, hv, _⟩ => ⟨v, hv⟩
  | .compareFields .., _ => trivial
  | .among .., _ => trivial
  | .isNull _, _ => trivial
  | .isNotNull _, _ => trivial
  | .like .., ⟨_, _, _, _, hpattern⟩ => hpattern.readable
  | .negate inner, h => closed_of_suits inner h
  | .all items, h => closedAll_of_suits items h
  | .any items, h => closedAll_of_suits items h

theorem closedAll_of_suits : ∀ items : List Predicate, SuitsAll l kind params items →
    ClosedAll params items
  | [], _ => trivial
  | p :: rest, h => ⟨closed_of_suits p h.1, closedAll_of_suits rest h.2⟩

end

theorem isNull_ofValue (v : Value) : (Cell.ofValue v).isNull = v.isNull := by
  cases v <;> rfl

theorem truth_among {α β : Type} {isNull : α → Bool} {isNull' : β → Bool}
    {compare? : α → α → Option Ordering} {compare?' : β → β → Option Ordering} {f : α → β} {a : α}
    {items : List α} (hnull : ∀ a, isNull' (f a) = isNull a)
    (hcompare : ∀ b ∈ items, compare?' (f a) (f b) = compare? a b) :
    Truth.among isNull' compare?' (f a) (items.map f) = Truth.among isNull compare? a items := by
  have hmatch : (items.map f).any (fun b => compare?' (f a) b == some .eq) =
      items.any (fun b => compare? a b == some .eq) := by
    rw [List.any_map]
    refine Bool.eq_iff_iff.mpr ?_
    simp only [List.any_eq_true, Function.comp_apply]
    refine exists_congr fun b => and_congr_right fun hb => ?_
    rw [hcompare b hb]
  have hopen : (items.map f).any isNull' = items.any isNull := by
    rw [List.any_map]
    exact congrArg (items.any ·) (funext hnull)
  unfold Truth.among
  rw [hnull, hmatch, hopen]

section

variable {pattern : String} {escape : Option Char} {ts : List LikeToken} {s : List Char}
  (hpattern : Searchable pattern.toList escape)

include hpattern

theorem tokens?_seen (hts : Like.tokens? escape pattern.toList = some ts) :
    Like.tokens? (escape.map seen) ((untilZero pattern.toList).map seen) =
      some (ts.map (.map seen)) := by
  rw [untilZero_of_not_mem hpattern.noZero, Like.tokens?_map ?_ ?_, hts, Option.map_some]
  · intro c
    cases escape with
    | none => simp
    | some e =>
        rw [Option.map_some, Option.some_inj, Option.some_inj, seen_eq_seen_iff, or_iff_left]
        exact fun h => (hpattern.sharp e rfl).2 h.1
  · exact Like.plainToken_seen

theorem likeTruth_lower (hts : Like.tokens? escape pattern.toList = some ts) (hzero : '\x00' ∉ s)
    (hapart : ∀ c ∈ pattern.toList, ∀ d ∈ s, seen c = seen d → c = d) :
    Database.likeTruth (.text (String.ofList (lower s))) pattern escape =
      .ofBool (Like.fits Like.exact ts (lower s)) := by
  have hnone : '\x00' ∉ lower s := fun h => hzero (mem_of_mem_lower (lone_of_le (by decide)) h)
  have hsame : ∀ c, .exactly c ∈ ts → ∀ d ∈ lower s,
      sameLetter (seen c) (seen d) = Like.exact c d := by
    intro c hc d hd
    have hmem := Like.mem_of_exactly hts hc
    rw [sameLetter, toLower_seen (hpattern.small c hmem), toLower_seen (small_of_mem_lower hd)]
    refine Bool.eq_iff_iff.mpr ?_
    rw [beq_iff_eq, Like.exact, beq_iff_eq]
    refine ⟨fun h => ?_, congrArg seen⟩
    rcases seen_eq_seen_iff.mp h with rfl | ⟨-, hblurred⟩
    · rfl
    · exact hapart c hmem d (mem_of_mem_lower (lone_of_blurred hblurred) hd) h
  rw [Database.likeTruth, tokens?_seen hpattern hts]
  change Truth.ofBool (Like.fits sameLetter (ts.map (.map seen))
    ((untilZero (String.ofList (lower s)).toList).map seen)) = _
  rw [String.toList_ofList, untilZero_of_not_mem hnone, Like.fits_map, Like.fits_congr hsame]

end

theorem like_eq (h : Alike l kind row e) {name pattern : String} {escape : Option Char}
    (hname : name ∈ l.names) (hkind : kind name = .text)
    (hpattern : Searchable pattern.toList escape) :
    truth l e (.like (.lower (.field name)) pattern escape) =
      (like (.lower (.field name)) pattern escape).meaning params row := by
  obtain ⟨ts, hts⟩ := hpattern.readable
  have hcolumn : (Expr.field name).column ∈ l.names := hname
  obtain ⟨hvalue, hcell⟩ := h.lowered hcolumn
  have hfits := h.fits name hname
  have hplain := h.plain name hname
  change (Expr.lower (.field name)).value row = (Row.value row name).folded at hvalue
  change cellOf l e (.lower (.field name)) = (Cell.ofValue (Row.value row name)).lower at hcell
  rw [truth, meaning, hvalue, hcell, hts]
  rw [hkind] at hfits
  rcases Value.text_of_fits hfits with hnull | ⟨s, hs⟩
  · rw [hnull]
    rfl
  · rw [hs] at hplain ⊢
    have hascii : ∀ d ∈ s.toList, ¬Blurred d := fun d hd hblurred =>
      absurd (blurred_iff.mp hblurred).1 (by have := (hplain d hd).1; omega)
    rw [lower_ofValue_text hplain, Value.folded]
    refine (likeTruth_lower hpattern hts (fun h => (hplain _ h).2 rfl) ?_).trans ?_
    · intro c _ d hd h
      exact (seen_eq_seen_iff.mp h).resolve_right fun hboth => hascii d hd hboth.2
    · rw [Value.likeText, String.toList_ofList]

section

variable (h : Alike l kind row e) (ht : Typed l kind)

include h ht

theorem compare_eq {name : String} (hname : name ∈ l.names) (op : CompareOp) {v : Value}
    (hv : v.Fits (kind name)) :
    truth l e (.compare (.field name) op v) = op.test (Row.value row name) v := by
  rw [truth, ht.affinity name hname, h.cells name hname, compare?_ofValue (h.fits name hname) hv]
  rfl

theorem compareFields_eq {name name' : String} (hname : name ∈ l.names) (hname' : name' ∈ l.names)
    (hkind : kind name = kind name') (op : CompareOp) :
    truth l e (.compareFields (.field name) op (.field name')) =
      op.test (Row.value row name) (Row.value row name') := by
  have hfits := h.fits name hname
  rw [hkind] at hfits
  rw [truth, ht.affinity name hname, ht.affinity name' hname', hkind, Affinity.join_self,
    h.cells name hname, h.cells name' hname', compare?_ofValue hfits (h.fits name' hname')]
  rfl

theorem among_eq {name : String} (hname : name ∈ l.names) {v : Value} {rest : List Value}
    (hvalues : ∀ w ∈ v :: rest, w.Fits (kind name)) :
    truth l e (.among (.field name) v rest) =
      .among Value.isNull Value.compare? (Row.value row name) (v :: rest) := by
  rw [truth, ht.affinity name hname, h.cells name hname]
  refine truth_among isNull_ofValue ?_
  intro w hw
  exact compare?_ofValue (h.fits name hname) (hvalues w hw)

end

mutual

theorem truth_eq_meaning (h : Alike l kind row e) (ht : Typed l kind) :
    ∀ p : Predicate, p.Suits l kind params →
      ∃ c, Condition.ofPredicate params p = .ok c ∧ truth l e c = p.meaning params row
  | .literal b, _ => ⟨.constant b, rfl, rfl⟩
  | .compare _ op operand, ⟨name, v, ⟨rfl, hname⟩, hv, hfits⟩ => by
      refine ⟨.compare (.field name) op v, ?_, ?_⟩
      · rw [Condition.ofPredicate, hv]
        rfl
      · rw [compare_eq h ht hname op hfits, meaning, hv]
        rfl
  | .compareFields _ op _, ⟨name, name', ⟨rfl, hname⟩, ⟨rfl, hname'⟩, hkind⟩ =>
      ⟨_, rfl, compareFields_eq h ht hname hname' hkind op⟩
  | .among _ values, ⟨name, ⟨rfl, hname⟩, hne, hvalues⟩ => by
      cases values with
      | nil => exact absurd rfl hne
      | cons v rest => exact ⟨_, rfl, among_eq h ht hname hvalues⟩
  | .isNull _, ⟨name, rfl, hname⟩ => by
      refine ⟨_, rfl, ?_⟩
      rw [truth, h.cells name hname, isNull_ofValue]
      rfl
  | .isNotNull _, ⟨name, rfl, hname⟩ => by
      refine ⟨_, rfl, ?_⟩
      rw [truth, h.cells name hname, isNull_ofValue]
      rfl
  | .like _ _ _, ⟨name, hexpr, hname, hkind, hpattern⟩ => by
      subst hexpr
      exact ⟨_, rfl, like_eq h hname hkind hpattern⟩
  | .negate inner, hp => by
      obtain ⟨c, hc, htruth⟩ := truth_eq_meaning h ht inner hp
      refine ⟨.negate c, ?_, ?_⟩
      · rw [Condition.ofPredicate, hc]
        rfl
      · rw [truth, meaning, htruth]
  | .all items, hp => by
      obtain ⟨conditions, hc, hall, -⟩ := truths_eq_meanings h ht items hp
      refine ⟨Condition.allOf conditions, ?_, ?_⟩
      · rw [Condition.ofPredicate, hc]
        rfl
      · rw [meaning, ← hall]
        cases conditions <;> rfl
  | .any items, hp => by
      obtain ⟨conditions, hc, -, hany⟩ := truths_eq_meanings h ht items hp
      refine ⟨Condition.anyOf conditions, ?_, ?_⟩
      · rw [Condition.ofPredicate, hc]
        rfl
      · rw [meaning, ← hany]
        cases conditions <;> rfl

theorem truths_eq_meanings (h : Alike l kind row e) (ht : Typed l kind) :
    ∀ items : List Predicate, SuitsAll l kind params items →
      ∃ conditions, Condition.ofPredicates params items = .ok conditions ∧
        truthAll l e conditions = meaningAll params row items ∧
        truthAny l e conditions = meaningAny params row items
  | [], _ => ⟨[], rfl, rfl, rfl⟩
  | p :: rest, hp => by
      obtain ⟨c, hc, htruth⟩ := truth_eq_meaning h ht p hp.1
      obtain ⟨conditions, hcs, hall, hany⟩ := truths_eq_meanings h ht rest hp.2
      refine ⟨c :: conditions, ?_, ?_, ?_⟩
      · rw [Condition.ofPredicates, hc, hcs]
        rfl
      · rw [truthAll, meaningAll, htruth, hall]
      · rw [truthAny, meaningAny, htruth, hany]

end

end Predicate

end RecordQuery
