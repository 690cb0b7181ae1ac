namespace RecordQuery

theorem bind_eq_ok {ε α β : Type} {x : Except ε α} {f : α → Except ε β} {b : β} :
    x >>= f = .ok b ↔ ∃ a, x = .ok a ∧ f a = .ok b := by
  cases x with
  | error e => simp [bind, Except.bind]
  | ok a => simp [bind, Except.bind]

theorem bind_eq_error {ε α β : Type} {x : Except ε α} {f : α → Except ε β} {e : ε} :
    x >>= f = .error e ↔ x = .error e ∨ ∃ a, x = .ok a ∧ f a = .error e := by
  cases x with
  | error e' => simp [bind, Except.bind]
  | ok a => simp [bind, Except.bind]

theorem map_eq_ok {ε α β : Type} {x : Except ε α} {f : α → β} {b : β} :
    x.map f = .ok b ↔ ∃ a, x = .ok a ∧ f a = b := by
  cases x with
  | error e => simp [Except.map]
  | ok a => simp [Except.map]

theorem exists_of_mapM {ε α β : Type} {f : α → Except ε β} {items : List α} {answers : List β}
    (h : items.mapM f = .ok answers) {b : β} (hb : b ∈ answers) : ∃ a ∈ items, f a = .ok b := by
  induction items generalizing answers with
  | nil =>
      obtain rfl := Except.ok.inj (h : Except.ok [] = .ok answers)
      cases hb
  | cons a rest ih =>
      rw [List.mapM_cons] at h
      obtain ⟨first, hfirst, h⟩ := bind_eq_ok.mp h
      obtain ⟨others, hothers, h⟩ := bind_eq_ok.mp h
      obtain rfl := Except.ok.inj (h : Except.ok (first :: others) = .ok answers)
      rcases List.mem_cons.mp hb with rfl | hb
      · exact ⟨a, List.mem_cons_self .., hfirst⟩
      · obtain ⟨c, hc, hread⟩ := ih hothers hb
        exact ⟨c, List.mem_cons_of_mem _ hc, hread⟩

theorem mapM_eq_error {ε α β : Type} {f : α → Except ε β} {items : List α} {e : ε} :
    items.mapM f = .error e ↔ ∃ front item back, items = front ++ item :: back ∧
      (∀ x ∈ front, ∃ b, f x = .ok b) ∧ f item = .error e := by
  induction items with
  | nil => simp [List.mapM_nil, pure, Except.pure]
  | cons a rest ih =>
      rw [List.mapM_cons, bind_eq_error]
      constructor
      · rintro (ha | ⟨b, hb, hrest⟩)
        · exact ⟨[], a, rest, rfl, nofun, ha⟩
        · have hfault : rest.mapM f = .error e := by
            rcases bind_eq_error.mp hrest with h | ⟨bs, -, h⟩
            · exact h
            · cases h
          obtain ⟨front, item, back, rfl, hfront, hitem⟩ := ih.mp hfault
          exact ⟨a :: front, item, back, rfl, List.forall_mem_cons.mpr ⟨⟨b, hb⟩, hfront⟩, hitem⟩
      · rintro ⟨front, item, back, hitems, hfront, hitem⟩
        cases front with
        | nil =>
            obtain ⟨rfl, rfl⟩ := List.cons.inj hitems
            exact .inl hitem
        | cons x front =>
            obtain ⟨rfl, rfl⟩ := List.cons.inj hitems
            obtain ⟨⟨b, hb⟩, hfront⟩ := List.forall_mem_cons.mp hfront
            have hrest := ih.mpr ⟨front, item, back, rfl, hfront, hitem⟩
            exact .inr ⟨b, hb, bind_eq_error.mpr (.inl hrest)⟩

end RecordQuery
