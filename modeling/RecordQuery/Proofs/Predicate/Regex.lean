import RecordQuery.Predicate.Evaluate
import RecordQuery.Proofs.Predicate.Pieces

namespace RecordQuery

namespace Regex

def isMeta (c : Char) : Bool := c ∈ "\\.+*?()|[]{}^$#&-~".toList

def isSpecial (c : Char) : Bool := c ∈ "\\.+*?()|[]{}^$".toList

inductive Atom where
  | any
  | char (c : Char)
  deriving DecidableEq

inductive Symbol where
  | atom (a : Atom)
  | star
  | start
  | stop
  deriving DecidableEq

inductive Part where
  | once (a : Atom)
  | many (a : Atom)
  | start
  | stop
  deriving DecidableEq

def symbol? (c : Char) : Option Symbol :=
  if c = '.' then some (.atom .any)
  else if c = '*' then some .star
  else if c = '^' then some .start
  else if c = '$' then some .stop
  else if isSpecial c then none
  else some (.atom (.char c))

def symbols? : List Char → Option (List Symbol)
  | [] => some []
  | [c] => (symbol? c).map fun x => [x]
  | c :: d :: rest =>
      if c = '\\' then
        if isMeta d then (symbols? rest).map (.atom (.char d) :: ·) else none
      else (symbol? c).bind fun x => (symbols? (d :: rest)).map (x :: ·)

def parts? : List Symbol → Option (List Part)
  | [] => some []
  | .atom a :: .star :: rest => (parts? rest).map (.many a :: ·)
  | .atom a :: rest => (parts? rest).map (.once a :: ·)
  | .start :: rest => (parts? rest).map (.start :: ·)
  | .stop :: rest => (parts? rest).map (.stop :: ·)
  | .star :: _ => none

end Regex

structure Regex where
  dotAll : Bool
  parts : List Regex.Part

namespace Regex

def read? : List Char → Option Regex
  | '(' :: '?' :: 's' :: ')' :: rest => ((symbols? rest).bind parts?).map (⟨true, ·⟩)
  | source => ((symbols? source).bind parts?).map (⟨false, ·⟩)

def Atom.Takes (dotAll : Bool) : Atom → Char → Prop
  | any, c => dotAll = true ∨ c ≠ '\n'
  | char d, c => c = d

def FoundAt (dotAll : Bool) : List Part → Nat → List Char → Prop
  | [], _, _ => True
  | .once a :: parts, before, s =>
      ∃ c rest, s = c :: rest ∧ a.Takes dotAll c ∧ FoundAt dotAll parts (before + 1) rest
  | .many a :: parts, before, s =>
      ∃ run rest, s = run ++ rest ∧ (∀ c ∈ run, a.Takes dotAll c) ∧
        FoundAt dotAll parts (before + run.length) rest
  | .start :: parts, before, s => before = 0 ∧ FoundAt dotAll parts before s
  | .stop :: parts, before, s => s = [] ∧ FoundAt dotAll parts before s

def IsMatch (r : Regex) (s : List Char) : Prop :=
  ∃ front rest, s = front ++ rest ∧ FoundAt r.dotAll r.parts front.length rest

def quote (c : Char) : List Char := if isMeta c then ['\\', c] else [c]

end Regex

namespace LikeToken

def source : LikeToken → List Char
  | anyRun => ['.', '*']
  | anyOne => ['.']
  | exactly c => Regex.quote c

def symbols : LikeToken → List Regex.Symbol
  | anyRun => [.atom .any, .star]
  | anyOne => [.atom .any]
  | exactly c => [.atom (.char c)]

def part : LikeToken → Regex.Part
  | anyRun => .many .any
  | anyOne => .once .any
  | exactly c => .once (.char c)

end LikeToken

namespace Like

def plainSource (c : Char) : List Char :=
  if c = '%' then ['.', '*'] else if c = '_' then ['.'] else Regex.quote c

def body? (escape : Option Char) : List Char → Option (List Char)
  | [] => some []
  | [c] => if escape = some c then none else some (plainSource c)
  | c :: d :: rest =>
      if escape = some c then (body? escape rest).map (Regex.quote d ++ ·)
      else (body? escape (d :: rest)).map (plainSource c ++ ·)

def source? (escape : Option Char) (pattern : List Char) : Option (List Char) :=
  (body? escape pattern).map fun body => "(?s)^".toList ++ body ++ "$".toList

end Like

namespace Regex

variable {c : Char} {ts : List LikeToken} {s : List Char}

theorem symbol?_of_not_isMeta (h : isMeta c = false) : symbol? c = some (.atom (.char c)) := by
  have hne : ∀ d, isMeta d = true → c ≠ d := by
    rintro d hd rfl
    rw [h] at hd
    cases hd
  have hspecial : isSpecial c = false := by
    simp only [isMeta, isSpecial] at h ⊢
    simp_all
  rw [symbol?, if_neg (hne _ (by decide)), if_neg (hne _ (by decide)), if_neg (hne _ (by decide)),
    if_neg (hne _ (by decide)), hspecial]
  rfl

theorem symbols?_cons (h : c ≠ '\\') (rest : List Char) :
    symbols? (c :: rest) = (symbol? c).bind fun x => (symbols? rest).map (x :: ·) := by
  cases rest with
  | nil =>
      rw [symbols?, symbols?, Option.map_eq_bind]
      rfl
  | cons d rest => rw [symbols?, if_neg h]

theorem symbols?_quote (c : Char) (rest : List Char) :
    symbols? (quote c ++ rest) = (symbols? rest).map (.atom (.char c) :: ·) := by
  unfold quote
  split
  · rename_i h
    exact (if_pos rfl).trans (if_pos h)
  · rename_i h
    have hmeta : isMeta c = false := Bool.eq_false_iff.mpr h
    have hne : c ≠ '\\' := by
      rintro rfl
      exact h (by decide)
    rw [List.singleton_append, symbols?_cons hne, symbol?_of_not_isMeta hmeta]
    rfl

theorem symbols?_source (t : LikeToken) (rest : List Char) :
    symbols? (t.source ++ rest) = (symbols? rest).map (t.symbols ++ ·) := by
  have hdot : ∀ rest, symbols? ('.' :: rest) = (symbols? rest).map (.atom .any :: ·) :=
    fun rest => symbols?_cons (by decide) rest
  have hstar : symbols? ('*' :: rest) = (symbols? rest).map (.star :: ·) :=
    symbols?_cons (by decide) rest
  cases t with
  | anyRun =>
      change symbols? ('.' :: '*' :: rest) = _
      rw [hdot, hstar, Option.map_map]
      rfl
  | anyOne => exact hdot rest
  | exactly c => exact symbols?_quote c rest

theorem symbols?_sources (ts : List LikeToken) (rest : List Char) :
    symbols? (ts.flatMap LikeToken.source ++ rest) =
      (symbols? rest).map (ts.flatMap LikeToken.symbols ++ ·) := by
  induction ts with
  | nil => simp
  | cons t ts ih =>
      rw [List.flatMap_cons, List.append_assoc, symbols?_source, ih, Option.map_map]
      refine congrArg (Option.map · _) (funext fun xs => ?_)
      simp

theorem symbols_ne_star (ts : List LikeToken) (rest : List Symbol) :
    ts.flatMap LikeToken.symbols ++ [.stop] ≠ .star :: rest := by
  cases ts with
  | nil => simp
  | cons t ts => cases t <;> simp [LikeToken.symbols]

theorem parts?_symbols (ts : List LikeToken) :
    parts? (ts.flatMap LikeToken.symbols ++ [.stop]) = some (ts.map LikeToken.part ++ [.stop]) := by
  have honce : ∀ (a : Atom) (ts : List LikeToken),
      parts? (.atom a :: (ts.flatMap LikeToken.symbols ++ [.stop])) =
        (parts? (ts.flatMap LikeToken.symbols ++ [.stop])).map (.once a :: ·) := by
    intro a ts
    rw [parts?]
    exact fun rest h => symbols_ne_star ts rest h
  induction ts with
  | nil => rfl
  | cons t ts ih =>
      cases t with
      | anyRun =>
          change (parts? (ts.flatMap LikeToken.symbols ++ [.stop])).map (.many .any :: ·) = _
          rw [ih]
          rfl
      | anyOne => exact (honce .any ts).trans (congrArg (Option.map _) ih)
      | exactly c => exact (honce (.char c) ts).trans (congrArg (Option.map _) ih)

theorem read?_source (ts : List LikeToken) :
    read? ("(?s)^".toList ++ ts.flatMap LikeToken.source ++ "$".toList) =
      some ⟨true, .start :: (ts.map LikeToken.part ++ [.stop])⟩ := by
  have hstop : symbols? "$".toList = some [.stop] := by decide
  have hsymbols : symbols? ('^' :: (ts.flatMap LikeToken.source ++ "$".toList)) =
      some (.start :: (ts.flatMap LikeToken.symbols ++ [.stop])) := by
    rw [symbols?_cons (by decide), symbols?_sources, hstop]
    rfl
  have hparts : parts? (.start :: (ts.flatMap LikeToken.symbols ++ [.stop])) =
      some (.start :: (ts.map LikeToken.part ++ [.stop])) := by
    rw [parts?, parts?_symbols]
    rfl
  change ((symbols? ('^' :: (ts.flatMap LikeToken.source ++ "$".toList))).bind parts?).map _ = _
  rw [hsymbols, Option.bind_some, hparts]
  rfl

theorem foundAt_parts (ts : List LikeToken) (before : Nat) (s : List Char) :
    FoundAt true (ts.map LikeToken.part ++ [.stop]) before s ↔ Like.Matches ts s := by
  induction ts generalizing before s with
  | nil => simp [FoundAt, Like.Matches]
  | cons t ts ih =>
      cases t with
      | anyRun => simp [LikeToken.part, FoundAt, Atom.Takes, ih, Like.Matches]
      | anyOne => simp [LikeToken.part, FoundAt, Atom.Takes, ih, Like.Matches]
      | exactly c =>
          simp only [List.map_cons, List.cons_append, LikeToken.part, FoundAt, Atom.Takes, ih,
            Like.Matches]
          constructor
          · rintro ⟨d, rest, rfl, rfl, h⟩
            exact ⟨rest, rfl, h⟩
          · rintro ⟨rest, rfl, h⟩
            exact ⟨c, rest, rfl, rfl, h⟩

theorem isMatch_parts : IsMatch ⟨true, .start :: (ts.map LikeToken.part ++ [.stop])⟩ s ↔
    Like.Matches ts s := by
  constructor
  · rintro ⟨front, rest, rfl, hfront, hrest⟩
    rw [List.length_eq_zero_iff] at hfront
    subst hfront
    exact (foundAt_parts ts 0 rest).mp hrest
  · intro h
    exact ⟨[], s, rfl, rfl, (foundAt_parts ts 0 s).mpr h⟩

end Regex

namespace Like

variable {escape : Option Char} {pattern : List Char}

theorem plainSource_eq (c : Char) : plainSource c = (plainToken c).source := by
  unfold plainSource plainToken
  split
  · rfl
  · split <;> rfl

theorem body?_eq : body? escape pattern =
    (tokens? escape pattern).map (·.flatMap LikeToken.source) := by
  induction pattern using tokens?.induct escape with
  | case1 => rfl
  | case2 e he =>
      rw [body?, tokens?, if_pos he, if_pos he]
      rfl
  | case3 c hc =>
      rw [body?, tokens?, if_neg hc, if_neg hc, plainSource_eq]
      simp
  | case4 e c rest he ih =>
      rw [body?, tokens?, if_pos he, if_pos he, ih, Option.map_map, Option.map_map]
      rfl
  | case5 c d rest hc ih =>
      rw [body?, tokens?, if_neg hc, if_neg hc, ih, plainSource_eq, Option.map_map, Option.map_map]
      rfl

theorem like_exact (escape : Option Char) (pattern : String) :
    Dangles escape pattern.toList ∧ source? escape pattern.toList = none ∧
        PatternTable.tokens? (pattern, escape) = .error (.danglingEscape pattern) ∨
      ¬Dangles escape pattern.toList ∧ ∃ ts source regex,
        (∀ us, Reads escape pattern.toList us ↔ us = ts) ∧
          PatternTable.tokens? (pattern, escape) = .ok ts ∧
          source? escape pattern.toList = some source ∧ Regex.read? source = some regex ∧
          ∀ s, (fits exact ts s = true ↔ Pieced ts s) ∧ (regex.IsMatch s ↔ Pieced ts s) := by
  cases hts : tokens? escape pattern.toList with
  | none =>
      refine .inl ⟨tokens?_eq_none_iff.mp hts, ?_, ?_⟩
      · rw [source?, body?_eq, hts]
        rfl
      · rw [PatternTable.tokens?, hts]
  | some ts =>
      have hdangles : ¬Dangles escape pattern.toList := by
        rw [← tokens?_eq_none_iff, hts]
        exact Option.some_ne_none ts
      have hsource : source? escape pattern.toList =
          some ("(?s)^".toList ++ ts.flatMap LikeToken.source ++ "$".toList) := by
        rw [source?, body?_eq, hts]
        rfl
      refine .inr ⟨hdangles, ts, _, _, ?_, ?_, hsource, Regex.read?_source ts, ?_⟩
      · intro us
        rw [← tokens?_eq_some_iff, hts, Option.some.injEq, eq_comm]
      · rw [PatternTable.tokens?, hts]
      · intro s
        rw [fits_iff, Regex.isMatch_parts, matches_iff_pieced]
        exact ⟨.rfl, .rfl⟩

end Like

end RecordQuery
