import RecordQuery.Json.Reader
import RecordQuery.Proofs.Json.Token

namespace RecordQuery.Json

open RecordQuery.Text

mutual

def isExact : Json → Bool
  | int n => !isHuge n.natAbs 0
  | otherNumber => false
  | unreadable => false
  | list items => isExactAll items
  | object members => isExactMembers members
  | _ => true

def isExactAll : List Json → Bool
  | [] => true
  | j :: rest => j.isExact && isExactAll rest

def isExactMembers : List (String × Json) → Bool
  | [] => true
  | (_, j) :: rest => j.isExact && isExactMembers rest

end

mutual

def tokens : Json → List Token
  | list items => .mark '[' :: (tokensAll items ++ [.mark ']'])
  | object members => .mark '\x7b' :: (tokensMembers members ++ [.mark '\x7d'])
  | j => [.atom j]

def tokensAll : List Json → List Token
  | [] => []
  | [j] => j.tokens
  | j :: rest => j.tokens ++ .mark ',' :: tokensAll rest

def tokensMembers : List (String × Json) → List Token
  | [] => []
  | [(key, j)] => .atom (.text key) :: .mark ':' :: j.tokens
  | (key, j) :: rest =>
      .atom (.text key) :: .mark ':' :: (j.tokens ++ .mark ',' :: tokensMembers rest)

end

def Lexes (s : List Char) (ts : List Token) : Prop := ∀ n, s.length ≤ n → tokensIn n s = some ts

theorem lexes_nil : Lexes [] [] := by
  intro n _
  cases n <;> rfl

theorem Lexes.cons {c : Char} {s rest : List Char} {t : Token} {ts : List Token}
    (h : Lexes rest ts) (hc : isSpace c = false) (ht : token? (c :: s) = some (t, rest))
    (hs : rest <:+ s) : Lexes (c :: s) (t :: ts) := by
  have hlength := hs.length_le
  intro n hn
  cases n with
  | zero => cases hn
  | succ n =>
      rw [tokensIn, hc, ht]
      simp only [Bool.false_eq_true, if_false]
      rw [h n (by rw [List.length_cons] at hn; omega)]
      rfl

theorem isSpace_of_isMark {c : Char} (h : isMark c = true) : isSpace c = false := by
  simp only [isMark, Bool.or_eq_true, beq_iff_eq] at h
  rcases h with ((((rfl | rfl) | rfl) | rfl) | rfl) | rfl <;> rfl

theorem isSpace_of_isDigit {c : Char} (h : c.isDigit = true) : isSpace c = false := by
  cases hc : isSpace c with
  | false => rfl
  | true =>
      simp only [isSpace, Bool.or_eq_true, beq_iff_eq] at hc
      rcases hc with ((rfl | rfl) | rfl) | rfl <;> cases h

theorem token?_mark {c : Char} (h : isMark c = true) (rest : List Char) :
    token? (c :: rest) = some (.mark c, rest) := by
  simp only [isMark, Bool.or_eq_true, beq_iff_eq] at h
  rcases h with ((((rfl | rfl) | rfl) | rfl) | rfl) | rfl <;> rfl

variable {rest : List Char} {ts : List Token}

theorem Lexes.mark (h : Lexes rest ts) {c : Char} (hc : isMark c = true) :
    Lexes (c :: rest) (.mark c :: ts) :=
  h.cons (isSpace_of_isMark hc) (token?_mark hc rest) (List.suffix_refl rest)

theorem Lexes.text (h : Lexes rest ts) (s : String) :
    Lexes (writeText s ++ rest) (.atom (.text s) :: ts) :=
  h.cons rfl (token?_writeText s rest) (List.suffix_append ..)

theorem Lexes.int (h : Lexes rest ts) (hrest : EndsNumber rest) {n : Int}
    (hsize : isHuge n.natAbs 0 = false) : Lexes (writeInt n ++ rest) (.atom (.int n) :: ts) := by
  have ht := token?_writeInt hrest hsize
  cases n with
  | ofNat n =>
      obtain ⟨c, s, hs, hc⟩ := exists_cons_writeNat n
      rw [writeInt] at ht ⊢
      rw [hs] at ht ⊢
      exact h.cons (isSpace_of_isDigit hc) ht (List.suffix_append ..)
  | negSucc n => exact h.cons rfl ht (List.suffix_append ..)

theorem write_list (items : List Json) :
    (list items).write = '[' :: (writeAll items ++ [']']) := rfl

theorem write_object (members : List (String × Json)) :
    (object members).write = '\x7b' :: (writeMembers members ++ ['\x7d']) := rfl

mutual

theorem lexes_write : ∀ (j : Json), j.isExact = true → ∀ (rest) {ts}, EndsNumber rest →
    Lexes rest ts → Lexes (j.write ++ rest) (j.tokens ++ ts)
  | .null, _, _, _, _, h => h.cons rfl rfl (List.suffix_append ['u', 'l', 'l'] _)
  | .bool true, _, _, _, _, h => h.cons rfl rfl (List.suffix_append ['r', 'u', 'e'] _)
  | .bool false, _, _, _, _, h => h.cons rfl rfl (List.suffix_append ['a', 'l', 's', 'e'] _)
  | .int n, hj, _, _, hrest, h => h.int hrest (by simpa [isExact] using hj)
  | .text s, _, _, _, _, h => h.text s
  | .list items, hj, rest, ts, hrest, h => by
      have hitems := lexes_writeAll items hj (']' :: rest) rfl (h.mark rfl)
      simpa [write_list, tokens] using hitems.mark (c := '[') rfl
  | .object members, hj, rest, ts, hrest, h => by
      have hmembers := lexes_writeMembers members hj ('\x7d' :: rest) rfl (h.mark rfl)
      simpa [write_object, tokens] using hmembers.mark (c := '\x7b') rfl

theorem lexes_writeAll : ∀ (items : List Json), isExactAll items = true → ∀ (rest) {ts},
    EndsNumber rest → Lexes rest ts → Lexes (writeAll items ++ rest) (tokensAll items ++ ts)
  | [], _, _, _, _, h => h
  | [j], hj, _, _, hrest, h => lexes_write j (by simpa [isExactAll] using hj) _ hrest h
  | j :: k :: items, hj, rest, ts, hrest, h => by
      obtain ⟨hj, hitems⟩ := Bool.and_eq_true_iff.mp hj
      have hothers := lexes_writeAll (k :: items) hitems rest hrest h
      have hfirst := lexes_write j hj (',' :: (writeAll (k :: items) ++ rest)) rfl
        (hothers.mark rfl)
      simpa [writeAll, tokensAll] using hfirst

theorem lexes_writeMembers : ∀ (members : List (String × Json)), isExactMembers members = true →
    ∀ (rest) {ts}, EndsNumber rest → Lexes rest ts →
      Lexes (writeMembers members ++ rest) (tokensMembers members ++ ts)
  | [], _, _, _, _, h => h
  | [(key, j)], hj, _, _, hrest, h => by
      have hvalue := lexes_write j (by simpa [isExactMembers] using hj) _ hrest h
      simpa [writeMembers, tokensMembers] using (hvalue.mark (c := ':') rfl).text key
  | (key, j) :: m :: members, hj, rest, ts, hrest, h => by
      obtain ⟨hj, hmembers⟩ := Bool.and_eq_true_iff.mp hj
      have hothers := lexes_writeMembers (m :: members) hmembers rest hrest h
      have hvalue := lexes_write j hj (',' :: (writeMembers (m :: members) ++ rest)) rfl
        (hothers.mark rfl)
      simpa [writeMembers, tokensMembers] using (hvalue.mark (c := ':') rfl).text key

end

theorem tokens?_write {j : Json} (hj : j.isExact = true) : tokens? j.write = some j.tokens := by
  have h := lexes_write j hj [] trivial lexes_nil
  rw [List.append_nil, List.append_nil] at h
  exact h _ (Nat.le_refl _)

theorem exists_cons_tokens (j : Json) : ∃ t ts, j.tokens = t :: ts ∧ t ≠ .mark ']' := by
  cases j with
  | list items => exact ⟨_, _, rfl, by simp⟩
  | object members => exact ⟨_, _, rfl, by simp⟩
  | _ => exact ⟨_, _, rfl, by simp⟩

theorem valueIn_list {n : Nat} {t : Token} {ts : List Token} (h : t ≠ .mark ']') :
    valueIn (n + 1) (.mark '[' :: t :: ts) =
      (itemsIn n (t :: ts)).map fun r => (.list r.1, r.2) := by
  rw [valueIn]
  rintro rest heq
  exact h (List.cons.inj heq).1

theorem valueIn_object {n : Nat} {t : Token} {ts : List Token} (h : t ≠ .mark '\x7d') :
    valueIn (n + 1) (.mark '\x7b' :: t :: ts) =
      (membersIn n (t :: ts)).map fun r => (ofMembers r.1, r.2) := by
  rw [valueIn]
  rintro rest heq
  exact h (List.cons.inj heq).1

theorem ofMembers_map (members : List (String × Json)) :
    ofMembers (members.map fun m => (some m.1, m.2)) = .object members := by
  have hall : (members.map fun m => (some m.1, m.2)).mapM
      (fun m : Option String × Json => m.1.map (·, m.2)) = some members := by
    induction members with
    | nil => rfl
    | cons m members ih => simp [ih]
  rw [ofMembers, hall]

theorem tokensAll_cons (j k : Json) (items : List Json) :
    tokensAll (j :: k :: items) = j.tokens ++ .mark ',' :: tokensAll (k :: items) := rfl

theorem tokensMembers_cons (key : String) (j : Json) (m : String × Json)
    (members : List (String × Json)) : tokensMembers ((key, j) :: m :: members) =
      .atom (.text key) :: .mark ':' :: (j.tokens ++ .mark ',' :: tokensMembers (m :: members)) :=
  rfl

mutual

theorem valueIn_tokens : ∀ (j : Json) {n} (rest), j.tokens.length ≤ n →
    valueIn n (j.tokens ++ rest) = some (j, rest)
  | .list [], n + 1, rest, _ => rfl
  | .list (j :: items), n + 1, rest, hn => by
      have hitems := itemsIn_tokens j items (n := n) rest
        (by simp only [tokens, List.length_cons, List.length_append] at hn ⊢; omega)
      obtain ⟨t, ts, hts, ht⟩ : ∃ t ts, tokensAll (j :: items) = t :: ts ∧ t ≠ .mark ']' := by
        obtain ⟨t, ts, hts, ht⟩ := exists_cons_tokens j
        cases items with
        | nil => exact ⟨t, ts, hts, ht⟩
        | cons k items => exact ⟨t, _, by rw [tokensAll_cons, hts]; rfl, ht⟩
      rw [tokens, List.cons_append, List.append_assoc, List.singleton_append]
      rw [hts] at hitems ⊢
      exact (valueIn_list ht).trans (congrArg _ hitems)
  | .object [], n + 1, rest, _ => rfl
  | .object ((key, j) :: members), n + 1, rest, hn => by
      have hmembers := membersIn_tokens key j members (n := n) rest
        (by simp only [tokens, List.length_cons, List.length_append] at hn ⊢; omega)
      obtain ⟨ts, hts⟩ : ∃ ts, tokensMembers ((key, j) :: members) = .atom (.text key) :: ts := by
        cases members with
        | nil => exact ⟨_, rfl⟩
        | cons m members => exact ⟨_, rfl⟩
      rw [tokens, List.cons_append, List.append_assoc, List.singleton_append]
      rw [hts] at hmembers ⊢
      refine (valueIn_object (by simp)).trans ((congrArg _ hmembers).trans ?_)
      rw [Option.map_some, ofMembers_map]
  | .null, n + 1, rest, _ => rfl
  | .bool b, n + 1, rest, _ => rfl
  | .int i, n + 1, rest, _ => rfl
  | .otherNumber, n + 1, rest, _ => rfl
  | .unreadable, n + 1, rest, _ => rfl
  | .text s, n + 1, rest, _ => rfl

theorem itemsIn_tokens : ∀ (j : Json) (items : List Json) {n} (rest),
    (tokensAll (j :: items)).length < n →
      itemsIn n (tokensAll (j :: items) ++ .mark ']' :: rest) = some (j :: items, rest)
  | j, [], n + 1, rest, hn => by
      have hvalue := valueIn_tokens j (n := n) (.mark ']' :: rest) (Nat.le_of_lt_succ hn)
      rw [itemsIn, tokensAll, hvalue]
      rfl
  | j, k :: items, n + 1, rest, hn => by
      rw [tokensAll_cons, List.length_append, List.length_cons] at hn
      have hvalue := valueIn_tokens j (n := n)
        (.mark ',' :: (tokensAll (k :: items) ++ .mark ']' :: rest)) (by omega)
      have hothers := itemsIn_tokens k items (n := n) rest (by omega)
      rw [itemsIn, tokensAll_cons, List.append_assoc, List.cons_append, hvalue]
      simp only [hothers, Option.map_some]

theorem membersIn_tokens : ∀ (key : String) (j : Json) (members : List (String × Json)) {n} (rest),
    (tokensMembers ((key, j) :: members)).length < n →
      membersIn n (tokensMembers ((key, j) :: members) ++ .mark '\x7d' :: rest) =
        some (((key, j) :: members).map fun m => (some m.1, m.2), rest)
  | key, j, [], n + 1, rest, hn => by
      have hvalue := valueIn_tokens j (n := n) (.mark '\x7d' :: rest)
        (by simp only [tokensMembers, List.length_cons] at hn; omega)
      rw [tokensMembers, List.cons_append, List.cons_append, membersIn, key?, hvalue]
      rfl
  | key, j, (other, k) :: members, n + 1, rest, hn => by
      rw [tokensMembers_cons, List.length_cons, List.length_cons, List.length_append,
        List.length_cons] at hn
      have hvalue := valueIn_tokens j (n := n)
        (.mark ',' :: (tokensMembers ((other, k) :: members) ++ .mark '\x7d' :: rest))
        (by omega)
      have hothers := membersIn_tokens other k members (n := n) rest (by omega)
      rw [tokensMembers_cons, List.cons_append, List.cons_append, membersIn, key?,
        List.append_assoc, List.cons_append, hvalue]
      simp only [hothers, Option.map_some, List.map_cons]

end

theorem read?_display {j : Json} (hj : j.isExact = true) : read? j.display = some j := by
  have h := valueIn_tokens j (n := 2 * j.tokens.length + 1) [] (by omega)
  rw [List.append_nil] at h
  rw [read?, display, String.toList_ofList, tokens?_write hj, Option.bind_some, ofTokens?, h]

end RecordQuery.Json
