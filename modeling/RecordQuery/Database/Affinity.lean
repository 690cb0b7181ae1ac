import RecordQuery.Database.Cell

namespace RecordQuery.Database

open RecordQuery.Number

inductive Affinity where
  | any
  | integer
  | text
  deriving DecidableEq, Repr

namespace Cell

def numeric : Cell → Cell
  | text s =>
      let r := Reading.read s.toList
      if !r.isComplete then text s
      else if r.fraction.isSome || r.exponent.isSome then real r.toBinary64
      else
        match r.wholeOf? with
        | some n => int n
        | none => real r.toBinary64
  | c => c

def whole : Cell → Cell
  | real a =>
      match a.whole? with
      | some n =>
          if Int64.minValue.toInt < n && n < Int64.maxValue.toInt then int (.ofInt n) else real a
      | none => real a
  | c => c

def textual : Cell → Cell
  | int n => text (String.ofList (int n).chars)
  | real a => text (String.ofList (real a).chars)
  | c => c

end Cell

namespace Affinity

def keep : Affinity → Cell → Cell
  | any, c => c
  | integer, c => c.numeric.whole
  | text, c => c.textual

def join : Affinity → Affinity → Affinity
  | integer, _ => integer
  | _, integer => integer
  | text, _ => text
  | _, text => text
  | any, any => any

def compare? (affinity : Affinity) (a b : Cell) : Option Ordering :=
  match affinity with
  | any => a.compare? b
  | integer => a.numeric.compare? b.numeric
  | text =>
      if a.isText || b.isText then a.textual.compare? b.textual else a.compare? b

theorem join_comm (a b : Affinity) : a.join b = b.join a := by cases a <;> cases b <;> rfl

theorem join_assoc (a b c : Affinity) : (a.join b).join c = a.join (b.join c) := by
  cases a <;> cases b <;> cases c <;> rfl

theorem join_self (a : Affinity) : a.join a = a := by cases a <;> rfl

end Affinity

end RecordQuery.Database
