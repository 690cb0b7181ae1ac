import RecordQuery.Database.Search

namespace RecordQuery.Database

open RecordQuery.Sql

abbrev Cells := List (String × Cell)

namespace Layout

def given (l : Layout) (cells : Cells) (p : Place) : List Cell :=
  (cells.filter fun x => l.place? x.1 == some p).map (·.2)

def record (l : Layout) (cell : Column → Cell) : Record :=
  .ofList (l.columns.map fun c => (c.name, c.affinity.keep (cell c)))

end Layout

def Cell.number? (c : Cell) : Except DatabaseFault Int64 :=
  match c.numeric.whole with
  | .int n => .ok n
  | _ => .error .mismatch

namespace Table

def largestNumber? (t : Table) : Option Int64 := t.records.keys.getLast?

/-- The number of a new row, where `counter` is the largest number ever given if the table does not
give one again. Other tables try the numbers that are drawn when they have come to the last one. -/
def freshNumber (t : Table) (counter : Int64) (draws : List Int64) : Except DatabaseFault Int64 :=
  let largest :=
    match t.largestNumber? with
    | none => 0
    | some n => if t.layout.lasting then max n counter else n
  let largest := if t.layout.lasting then max largest counter else largest
  if largest = Int64.maxValue then
    if t.layout.lasting then .error .full
    else
      match draws.find? fun n => 0 < n && (t.records.get? n).isNone with
      | some n => .ok n
      | none => .error .full
  else .ok (largest + 1)

def numberOf (t : Table) (counter : Int64) (draws : List Int64) (cells : Cells) :
    Except DatabaseFault Int64 :=
  match (t.layout.given cells .number).getLast? with
  | none => t.freshNumber counter draws
  | some .null => t.freshNumber counter draws
  | some c => c.number?

def repeats (others : List Entry) (e : Entry) (c : Column) : Bool :=
  others.any fun o => (e.column c).compare? (o.column c) == some .eq

def check (t : Table) (others : List Entry) (e : Entry) : Except DatabaseFault Table :=
  match t.layout.columns.find? fun c => c.required && (e.column c).isNull with
  | some c => .error (.notNull t.layout.name c.name)
  | none =>
      if others.any (·.number == e.number) then
        .error (.notUnique t.layout.name t.layout.numberName)
      else
        match t.layout.columns.find? fun c => c.unique && repeats others e c with
        | some c => .error (.notUnique t.layout.name c.name)
        | none => .ok (t.put e)

def insert (t : Table) (as : String) (counter : Int64) (draws : List Int64) (cells : Cells) :
    Except DatabaseFault (Int64 × Table) :=
  match t.layout.stranger? (cells.map (·.1)) with
  | some name => .error (.noColumnOfTable as name)
  | none =>
      match t.numberOf counter draws cells with
      | .error fault => .error fault
      | .ok number =>
          let record :=
            t.layout.record fun c => ((t.layout.given cells (.column c)).head?).getD c.initial
          match t.check t.entries ⟨number, record⟩ with
          | .error fault => .error fault
          | .ok t => .ok (number, t)

def changed (t : Table) (e : Entry) (cells : Cells) : Except DatabaseFault Entry :=
  let record :=
    t.layout.record fun c => ((t.layout.given cells (.column c)).getLast?).getD (e.column c)
  match (t.layout.given cells .number).getLast? with
  | none => .ok ⟨e.number, record⟩
  | some c => c.number?.map (⟨·, record⟩)

def replace (t : Table) (e : Entry) (cells : Cells) : Except DatabaseFault Table :=
  match t.changed e cells with
  | .error fault => .error fault
  | .ok new =>
      let rest := { t with records := t.records.erase e.number }
      rest.check rest.entries new

def update (t : Table) (conditions : List Condition) (raised : Option String) (cells : Cells) :
    Except DatabaseFault (Bool × Table) :=
  match t.layout.stranger? (cells.map (·.1) ++ raised.toList) with
  | some name => .error (.noColumn name)
  | none =>
      match t.entries.find? fun e => satisfies t.layout e conditions with
      | none => .ok (false, t)
      | some e =>
          let next := raised.toList.map fun name => (name, (cellOf t.layout e (.field name)).succ)
          (t.replace e (cells ++ next)).map (true, ·)

end Table

end RecordQuery.Database
