import Mathlib.Tactic.Common
import RecordQuery.Sql.Dialect
import RecordQuery.Text.Case

namespace RecordQuery.Sql

open RecordQuery.Text

inductive Token where
  | name (s : String)
  | word (s : String)
  | number (n : Nat)
  | sign (s : String)
  | mark (c : Char)
  | hole
  | value (v : Value)
  deriving DecidableEq, Repr

namespace Token

inductive Kind where
  | letter
  | digit
  | sign
  deriving DecidableEq, Repr

def Kind.of? (c : Char) : Option Kind :=
  if c.isAlpha || c == '_' then some .letter
  else if c.isDigit then some .digit
  else if c == '<' || c == '=' || c == '>' then some .sign
  else none

def Kind.takes (kind : Kind) (c : Char) : Bool :=
  of? c == some kind || (kind == .letter && c.isDigit)

def ofRun : Kind → List Char → Token
  | .letter, s => word (String.ofList (upperAscii s))
  | .digit, s => number (ofDigits s)
  | .sign, s => sign (String.ofList s)

inductive Mode where
  | between
  | run (kind : Kind) (s : List Char)
  | quoted (s : List Char)
  | closed (s : List Char)
  deriving DecidableEq, Repr

namespace Mode

def pending? : Mode → Option (List Token)
  | between => some []
  | run kind s => some [ofRun kind s]
  | quoted _ => none
  | closed s => some [name (String.ofList s)]

def start? (c : Char) : Option (Mode × List Token) :=
  if c.isWhitespace then some (between, [])
  else if c = '"' then some (quoted [], [])
  else if c = '?' then some (between, [hole])
  else if c ∈ ['(', ')', ',', '*', '-'] then some (between, [mark c])
  else (Kind.of? c).map fun kind => (run kind [c], [])

def behind (ts : List Token) (p : Mode × List Token) : Mode × List Token := (p.1, ts ++ p.2)

def startAfter? (t : Token) (c : Char) : Option (Mode × List Token) := (start? c).map (behind [t])

def step? : Mode → Char → Option (Mode × List Token)
  | between, c => start? c
  | run kind s, c =>
      if kind.takes c then some (run kind (s ++ [c]), []) else startAfter? (ofRun kind s) c
  | quoted s, c => if c = '"' then some (closed s, []) else some (quoted (s ++ [c]), [])
  | closed s, c =>
      if c = '"' then some (quoted (s ++ ['"']), []) else startAfter? (name (String.ofList s)) c

def steps? : Mode → List Char → Option (Mode × List Token)
  | mode, [] => some (mode, [])
  | mode, c :: s =>
      match mode.step? c with
      | none => none
      | some (next, ts) => (steps? next s).map (behind ts)

def tokens? (mode : Mode) (s : List Char) : Option (List Token) :=
  match mode.steps? s with
  | none => none
  | some (last, ts) => last.pending?.map (ts ++ ·)

end Mode

def lex? (s : List Char) : Option (List Token) := Mode.between.tokens? s

def fill? : List Token → List Value → Option (List Token)
  | [], [] => some []
  | [], _ :: _ => none
  | hole :: _, [] => none
  | hole :: ts, v :: values => (fill? ts values).map (value v :: ·)
  | t :: ts, values => (fill? ts values).map (t :: ·)

def filled? (s : List Char) (values : List Value) : Option (List Token) :=
  (lex? s).bind (fill? · values)

namespace Mode

variable {mode next : Mode} {c : Char} {s t : List Char} {ts us : List Token}

theorem steps?_append (h : mode.steps? s = some (next, ts)) (t : List Char) :
    mode.steps? (s ++ t) = (next.steps? t).map (behind ts) := by
  induction s generalizing mode ts with
  | nil =>
      cases h
      exact (Option.map_id' ..).symm
  | cons c s ih =>
      rw [steps?] at h
      split at h
      · cases h
      · rename_i middle vs hstep
        obtain ⟨⟨last, us⟩, hsteps, heq⟩ := Option.map_eq_some_iff.mp h
        obtain ⟨rfl, rfl⟩ := Prod.mk.inj heq
        have hbehind : behind vs ∘ behind us = behind (vs ++ us) :=
          funext fun p => congrArg (Prod.mk p.1) (List.append_assoc ..).symm
        simp only [List.cons_append, steps?, hstep, ih hsteps, Option.map_map, hbehind]

theorem tokens?_append (h : mode.steps? s = some (next, ts)) (t : List Char) :
    mode.tokens? (s ++ t) = (next.tokens? t).map (ts ++ ·) := by
  rw [tokens?, tokens?, steps?_append h]
  cases next.steps? t with
  | none => rfl
  | some p => simp [behind, Function.comp_def]

theorem tokens?_cons (h : mode.step? c = some (next, ts)) (t : List Char) :
    mode.tokens? (c :: t) = (next.tokens? t).map (ts ++ ·) := by
  have hsteps : mode.steps? [c] = some (next, ts) := by
    simp [steps?, h, behind]
  exact tokens?_append hsteps t

theorem tokens?_run {kind : Kind} (hs : ∀ c ∈ s, kind.takes c = true) (w t : List Char) :
    (run kind w).tokens? (s ++ t) = (run kind (w ++ s)).tokens? t := by
  induction s generalizing w with
  | nil => simp
  | cons c s ih =>
      have hstep : (run kind w).step? c = some (run kind (w ++ [c]), []) := by
        rw [step?, if_pos (hs c (List.mem_cons_self ..))]
      rw [List.cons_append, tokens?_cons hstep, ih fun d hd => hs d (List.mem_cons_of_mem _ hd)]
      simp

theorem tokens?_quoted (n w t : List Char) :
    (quoted w).tokens? (n.flatMap (fun c => if c = '"' then ['"', '"'] else [c]) ++ '"' :: t) =
      (closed (w ++ n)).tokens? t := by
  induction n generalizing w with
  | nil =>
      rw [List.flatMap_nil, List.nil_append, tokens?_cons rfl, List.append_nil]
      exact Option.map_id' ..
  | cons c n ih =>
      by_cases hc : c = '"'
      · subst hc
        have hpair : (quoted w).steps? ['"', '"'] = some (quoted (w ++ ['"']), []) := rfl
        rw [List.flatMap_cons, if_pos rfl, List.append_assoc, tokens?_append hpair, ih]
        simp
      · have hstep : (quoted w).step? c = some (quoted (w ++ [c]), []) := by
          rw [step?, if_neg hc]
        rw [List.flatMap_cons, if_neg hc, List.append_assoc, List.singleton_append,
          tokens?_cons hstep, ih]
        simp

end Mode

def Apart (s : List Char) : Prop := ∀ c ∈ s.head?, Kind.of? c = none ∧ c ≠ '"'

theorem Kind.takes_of_apart {c : Char} (h : Kind.of? c = none) (kind : Kind) :
    kind.takes c = false := by
  have hdigit : c.isDigit = false := by
    unfold of? at h
    split at h
    · cases h
    · split at h
      · cases h
      · rename_i hdigit
        exact Bool.eq_false_iff.mpr hdigit
  simp [takes, h, hdigit]

section

variable {rest : List Char} (h : Apart rest)

include h

theorem tokens?_startAfter {mode : Mode} {t : Token} (hpending : mode.pending? = some [t])
    (hstep : ∀ c ∈ rest.head?, mode.step? c = Mode.startAfter? t c) :
    mode.tokens? rest = (lex? rest).map (t :: ·) := by
  cases rest with
  | nil =>
      simp only [Mode.tokens?, Mode.steps?, hpending]
      rfl
  | cons c rest =>
      have hstep := hstep c rfl
      rw [Mode.startAfter?] at hstep
      rw [lex?, Mode.tokens?, Mode.tokens?, Mode.steps?, Mode.steps?, hstep, Mode.step?]
      cases Mode.start? c with
      | none => rfl
      | some p =>
          cases hsteps : p.1.steps? rest with
          | none => simp [Mode.behind, hsteps]
          | some q => simp [Mode.behind, hsteps, Function.comp_def]

theorem tokens?_run_apart (kind : Kind) (w : List Char) :
    (Mode.run kind w).tokens? rest = (lex? rest).map (ofRun kind w :: ·) := by
  refine tokens?_startAfter h rfl fun c hc => ?_
  rw [Mode.step?, Kind.takes_of_apart (h c hc).1]
  rfl

theorem tokens?_closed_apart (w : List Char) :
    (Mode.closed w).tokens? rest = (lex? rest).map (name (String.ofList w) :: ·) := by
  refine tokens?_startAfter h rfl fun c hc => ?_
  rw [Mode.step?, if_neg (h c hc).2]

end

theorem apart_cons {c : Char} (h : Kind.of? c = none ∧ c ≠ '"') (s : List Char) :
    Apart (c :: s) := by
  intro d hd
  obtain rfl := Option.some.inj hd
  exact h

theorem apart_nil : Apart [] := by
  intro d hd
  cases hd

theorem fill?_cons {t : Token} (ht : t ≠ hole) (ts : List Token) (values : List Value) :
    fill? (t :: ts) values = (fill? ts values).map (t :: ·) := by
  cases t with
  | hole => exact absurd rfl ht
  | _ => cases values <;> rfl

theorem fill?_append {ts : List Token} (hts : hole ∉ ts) (us : List Token) (values : List Value) :
    fill? (ts ++ us) values = (fill? us values).map (ts ++ ·) := by
  induction ts with
  | nil => exact (Option.map_id' ..).symm
  | cons t ts ih =>
      have ht : t ≠ hole := fun h => hts (h ▸ List.mem_cons_self ..)
      rw [List.cons_append, fill?_cons ht, ih fun h => hts (List.mem_cons_of_mem _ h),
        Option.map_map]
      rfl

def Prints (Behind : List Char → Prop) (s : List Char) (values : List Value) (ts : List Token) :
    Prop :=
  ∀ rest more, Behind rest →
    filled? (s ++ rest) (values ++ more) = (filled? rest more).map (ts ++ ·)

def Anything (_ : List Char) : Prop := True

section

variable {P Q : List Char → Prop} {s t : List Char} {values more : List Value} {ts us : List Token}

theorem Prints.append (h : Prints P s values ts) (h' : Prints Q t more us)
    (hbehind : ∀ rest, Q rest → P (t ++ rest)) :
    Prints Q (s ++ t) (values ++ more) (ts ++ us) := by
  intro rest others hrest
  rw [List.append_assoc, List.append_assoc, h _ _ (hbehind rest hrest), h' rest others hrest,
    Option.map_map]
  refine congrArg (Option.map · _) (funext fun vs => ?_)
  simp

theorem Prints.weaken (h : Prints Anything s values ts) : Prints P s values ts :=
  fun rest more _ => h rest more trivial

theorem prints_nil : Prints P [] [] [] := by
  intro rest more _
  exact (Option.map_id' ..).symm

theorem Prints.filled (h : Prints Apart s values ts) : filled? s values = some ts := by
  have hall := h [] [] apart_nil
  rw [List.append_nil, List.append_nil] at hall
  rw [hall]
  exact congrArg some (List.append_nil ts)

theorem prints_lexed (hts : hole ∉ ts)
    (h : ∀ rest, P rest → lex? (s ++ rest) = (lex? rest).map (ts ++ ·)) : Prints P s [] ts := by
  intro rest more hrest
  rw [filled?, filled?, h rest hrest]
  cases lex? rest with
  | none => rfl
  | some us => exact fill?_append hts us more

theorem prints_literal (h : Mode.between.steps? s = some (.between, ts)) (hts : hole ∉ ts) :
    Prints Anything s [] ts :=
  prints_lexed hts fun rest _ => Mode.tokens?_append h rest

theorem Prints.enclosed {opening : List Char} (h : Prints Apart s values ts)
    (hopening : Prints Anything opening [] us) :
    Prints Apart (opening ++ s ++ [')']) values (us ++ ts ++ [mark ')']) := by
  have hclose : Prints Anything [')'] [] [mark ')'] :=
    prints_literal (by decide) (by simp)
  have hopened : Prints Apart (opening ++ s) values (us ++ ts) :=
    hopening.append h fun _ _ => trivial
  have hclosed := hopened.append hclose fun rest _ => apart_cons (by decide) rest
  rw [List.append_nil] at hclosed
  exact hclosed.weaken

theorem prints_value (v : Value) : Prints Anything ['?'] [v] [value v] := by
  intro rest more _
  have hlex : lex? ('?' :: rest) = (lex? rest).map ([hole] ++ ·) := Mode.tokens?_cons rfl rest
  rw [List.singleton_append, filled?, filled?, hlex]
  cases lex? rest with
  | none => rfl
  | some us => rfl

theorem prints_fixed (h : lex? s = some ts) (hts : hole ∉ ts) : Prints Apart s [] ts := by
  refine prints_lexed hts fun rest hrest => ?_
  rw [lex?, Mode.tokens?] at h
  split at h
  · cases h
  · rename_i last us hsteps
    obtain ⟨vs, hpending, rfl⟩ := Option.map_eq_some_iff.mp h
    -- What the text leaves open cannot go on, so it ends here as it does at the end of a text.
    have hlast : last.tokens? rest = (lex? rest).map (vs ++ ·) := by
      cases last with
      | between =>
          cases hpending
          exact (Option.map_id' ..).symm
      | run kind w =>
          cases hpending
          exact tokens?_run_apart hrest kind w
      | quoted w => cases hpending
      | closed w =>
          cases hpending
          exact tokens?_closed_apart hrest w
    rw [lex?, Mode.tokens?_append hsteps, hlast, Option.map_map]
    refine congrArg (Option.map · _) (funext fun ws => ?_)
    simp

theorem digit_step {c : Char} (h : c.isDigit = true) :
    Mode.between.step? c = some (.run .digit [c], []) ∧ Kind.digit.takes c = true := by
  have hrange : 48 ≤ c.toNat ∧ c.toNat < 58 := by
    simp only [Char.isDigit, Bool.and_eq_true, decide_eq_true_eq, ge_iff_le,
      UInt32.le_iff_toNat_le] at h
    exact ⟨h.1, Nat.lt_succ_of_le h.2⟩
  have hall : ∀ n : Fin 58, 48 ≤ n.val →
      Mode.between.step? (Char.ofNat n) = some (.run .digit [Char.ofNat n], []) ∧
        Kind.digit.takes (Char.ofNat n) = true := by
    decide
  have hc := hall ⟨c.toNat, hrange.2⟩ hrange.1
  rwa [Char.ofNat_toNat] at hc

theorem prints_number (n : Nat) : Prints Apart (displayNat n).toList [] [number n] := by
  have hdigits : ∀ c ∈ writeNat n, c.isDigit = true :=
    fun c hc => Nat.isDigit_of_mem_toDigits (by decide) (by decide) hc
  have hvalue : ofDigits (writeNat n) = n := Nat.ofDigitChars_ten_toDigits
  have hne : writeNat n ≠ [] := Nat.toDigits_ne_nil
  rw [displayNat, String.toList_ofList]
  refine prints_fixed ?_ (by simp)
  obtain ⟨c, s, hs⟩ := List.exists_cons_of_ne_nil hne
  rw [hs] at hdigits hvalue ⊢
  have hc := (digit_step (hdigits c (List.mem_cons_self ..))).1
  have htakes : ∀ d ∈ s, Kind.digit.takes d = true :=
    fun d hd => (digit_step (hdigits d (List.mem_cons_of_mem _ hd))).2
  have hrun := Mode.tokens?_run htakes [c] []
  rw [List.append_nil, List.singleton_append] at hrun
  rw [lex?, Mode.tokens?_cons hc, hrun]
  exact congrArg (fun m => some [number m]) hvalue

theorem prints_quoted (n : String) : Prints Apart (quoted n).toList [] [name n] := by
  refine prints_fixed ?_ (by simp)
  rw [quoted, String.toList_ofList, lex?, List.cons_append, Mode.tokens?_cons rfl,
    Mode.tokens?_quoted, List.nil_append]
  exact congrArg (fun s => some [name s]) String.ofList_toList

end

end Token

end RecordQuery.Sql
