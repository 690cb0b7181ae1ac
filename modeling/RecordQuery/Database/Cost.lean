namespace RecordQuery.Database

/-- An estimate on a logarithmic scale, where ten units are a factor of two. -/
abbrev Cost := Int

namespace Cost

def fractions : List Cost := [0, 2, 3, 5, 6, 7, 8, 9]

def ofCount (n : Nat) : Cost :=
  if n < 2 then 0
  else
    let octave := n.log2
    10 * octave + fractions.getD (n * 8 / Nat.pow 2 octave - 8) 0

def addition (distance : Nat) : Nat :=
  if distance ≤ 1 then 10
  else if distance ≤ 3 then 9
  else if distance ≤ 5 then 8
  else if distance ≤ 8 then 7
  else if distance ≤ 11 then 6
  else if distance ≤ 14 then 5
  else if distance ≤ 18 then 4
  else if distance ≤ 24 then 3
  else if distance ≤ 31 then 2
  else if distance ≤ 49 then 1
  else 0

def add (a b : Cost) : Cost := max a b + addition (max a b - min a b).toNat

def search (rows : Cost) : Cost := if rows ≤ 10 then 0 else ofCount rows.toNat - 33

theorem add_comm (a b : Cost) : add a b = add b a := by
  rw [add, add, Int.max_comm a b, Int.min_comm a b]

theorem max_le_add (a b : Cost) : max a b ≤ add a b :=
  Int.le_add_of_nonneg_right (Int.natCast_nonneg _)

end Cost

end RecordQuery.Database
