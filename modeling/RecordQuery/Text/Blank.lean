namespace RecordQuery.Text

def isBlank (c : Char) : Bool :=
  let n := c.toNat
  (9 ≤ n && n ≤ 13) || n == 0x20 || n == 0x85 || n == 0xA0 || n == 0x1680 ||
    (0x2000 ≤ n && n ≤ 0x200A) || n == 0x2028 || n == 0x2029 || n == 0x202F ||
    n == 0x205F || n == 0x3000

def allBlank (s : List Char) : Bool := s.all isBlank

def trimStart (s : List Char) : List Char := s.dropWhile isBlank

def trim (s : List Char) : List Char := (trimStart (trimStart s).reverse).reverse

def startsBlank : List Char → Bool
  | [] => true
  | c :: _ => isBlank c

def lengthen (c : Char) : List (List Char) → List (List Char)
  | [] => [[c]]
  | w :: ws => (c :: w) :: ws

def words : List Char → List (List Char)
  | [] => []
  | c :: rest =>
      if isBlank c then words rest
      else if startsBlank rest then [c] :: words rest
      else lengthen c (words rest)

theorem words_blank {c : Char} (h : isBlank c = true) (rest : List Char) :
    words (c :: rest) = words rest := by
  simp [words, h]

theorem mem_lengthen {c : Char} {ws : List (List Char)} {w : List Char} (h : w ∈ lengthen c ws) :
    (∃ v, w = c :: v ∧ (v = [] ∨ v ∈ ws)) ∨ w ∈ ws := by
  cases ws with
  | nil => exact .inl ⟨[], by simpa [lengthen] using h, .inl rfl⟩
  | cons v vs =>
      rcases List.mem_cons.mp h with rfl | h
      · exact .inl ⟨v, rfl, .inr (by simp)⟩
      · exact .inr (List.mem_cons_of_mem _ h)

theorem mem_words_not_blank {s w : List Char} (hw : w ∈ words s) :
    w ≠ [] ∧ ∀ c ∈ w, isBlank c = false := by
  induction s generalizing w with
  | nil => simp [words] at hw
  | cons c rest ih =>
      rw [words] at hw
      split at hw
      · exact ih hw
      · rename_i hc
        have hc : isBlank c = false := Bool.eq_false_iff.mpr hc
        split at hw
        · rcases List.mem_cons.mp hw with rfl | hw
          · exact ⟨List.cons_ne_nil _ _, by simpa using hc⟩
          · exact ih hw
        · rcases mem_lengthen hw with ⟨v, rfl, hv⟩ | hw
          · refine ⟨List.cons_ne_nil _ _, fun y hy => ?_⟩
            rcases List.mem_cons.mp hy with rfl | hy
            · exact hc
            · rcases hv with rfl | hv
              · cases hy
              · exact (ih hv).2 y hy
          · exact ih hw

end RecordQuery.Text
