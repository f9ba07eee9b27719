/-!
# Fallible computations

How a computation put together from others succeeds, and how it fails.
-/

namespace Except

variable {ε ε' α β : Type}

theorem map_eq_ok_iff {x : Except ε α} {f : α → β} {b : β} :
    x.map f = .ok b ↔ ∃ a, x = .ok a ∧ f a = b := by
  cases x <;> simp [Except.map]

theorem map_eq_error_iff {x : Except ε α} {f : α → β} {e : ε} :
    x.map f = .error e ↔ x = .error e := by
  cases x <;> simp [Except.map]

theorem toOption_eq_some_iff {x : Except ε α} {a : α} : x.toOption = some a ↔ x = .ok a := by
  cases x <;> simp [Except.toOption]

theorem mapError_eq_ok_iff {x : Except ε α} {f : ε → ε'} {a : α} :
    x.mapError f = .ok a ↔ x = .ok a := by
  cases x with
  | error d => constructor <;> intro h <;> cases h
  | ok b =>
    constructor <;> intro h <;> cases h
    · rfl
    · rfl

theorem mapError_eq_error_iff {x : Except ε α} {f : ε → ε'} {e : ε'} :
    x.mapError f = .error e ↔ ∃ d, x = .error d ∧ f d = e := by
  cases x with
  | error d =>
    constructor
    · intro h
      cases h
      exact ⟨d, rfl, rfl⟩
    · rintro ⟨_, ⟨⟩, rfl⟩
      rfl
  | ok b =>
    constructor
    · intro h
      cases h
    · rintro ⟨_, ⟨⟩, -⟩

theorem bind_eq_ok_iff {x : Except ε α} {f : α → Except ε β} {b : β} :
    x >>= f = .ok b ↔ ∃ a, x = .ok a ∧ f a = .ok b := by
  cases x <;> simp [bind, Except.bind]

theorem bind_eq_error_iff {x : Except ε α} {f : α → Except ε β} {e : ε} :
    x >>= f = .error e ↔ x = .error e ∨ ∃ a, x = .ok a ∧ f a = .error e := by
  cases x <;> simp [bind, Except.bind]

/-! ## Lists -/

/-- A traversal succeeds just if it does at every element. -/
theorem exists_mapM_eq_ok_iff {f : α → Except ε β} {l : List α} :
    (∃ bs, l.mapM f = .ok bs) ↔ ∀ a ∈ l, ∃ b, f a = .ok b := by
  induction l with
  | nil => exact ⟨fun _ => by simp, fun _ => ⟨[], rfl⟩⟩
  | cons a l ih =>
    rw [List.forall_mem_cons, ← ih]
    constructor
    · rintro ⟨_, h⟩
      rw [List.mapM_cons] at h
      obtain ⟨b, hb, h⟩ := bind_eq_ok_iff.1 h
      obtain ⟨bs, hbs, -⟩ := bind_eq_ok_iff.1 h
      exact ⟨⟨b, hb⟩, bs, hbs⟩
    · rintro ⟨⟨b, hb⟩, bs, hbs⟩
      refine ⟨b :: bs, ?_⟩
      rw [List.mapM_cons, hb, hbs]
      rfl

/-- A traversal that can fail in one way only fails so if it does at some element. -/
theorem mapM_eq_error {f : α → Except ε β} {l : List α} {e : ε}
    (honly : ∀ a ∈ l, ∀ d, f a = .error d → d = e) (hfails : ∃ a ∈ l, f a = .error e) :
    l.mapM f = .error e := by
  induction l with
  | nil => simp at hfails
  | cons a l ih =>
    obtain ⟨ha, hl⟩ := List.forall_mem_cons.1 honly
    rw [List.mapM_cons]
    cases hfa : f a with
    | error d =>
      rw [ha d hfa]
      rfl
    | ok b =>
      obtain ⟨c, hc, hfails⟩ := hfails
      rcases List.mem_cons.1 hc with rfl | hc
      · simp [hfa] at hfails
      · rw [ih hl ⟨c, hc, hfails⟩]
        rfl

/-- What is written element by element is read element by element. -/
theorem mapM_map_eq_ok {f : β → Except ε α} {g : α → β} {l : List α}
    (h : ∀ a ∈ l, f (g a) = .ok a) : (l.map g).mapM f = .ok l := by
  induction l with
  | nil => rfl
  | cons a l ih =>
    obtain ⟨ha, hl⟩ := List.forall_mem_cons.1 h
    rw [List.map_cons, List.mapM_cons, ha, ih hl]
    rfl

theorem mem_iff_of_mapM_eq_ok {f : α → Except ε β} {l : List α} {bs : List β}
    (h : l.mapM f = .ok bs) {b : β} : b ∈ bs ↔ ∃ a ∈ l, f a = .ok b := by
  induction l generalizing bs with
  | nil =>
    cases h
    simp
  | cons a l ih =>
    rw [List.mapM_cons] at h
    obtain ⟨c, hc, h⟩ := bind_eq_ok_iff.1 h
    obtain ⟨cs, hcs, h⟩ := bind_eq_ok_iff.1 h
    cases h
    rw [List.mem_cons, ih hcs, eq_comm]
    simp [hc]

/-! ## Tests that may fail -/

theorem filterAuxM_eq (p : α → Except ε Bool) (l acc : List α) :
    l.filterAuxM p acc = (l.filterAuxM p []).map (· ++ acc) := by
  induction l generalizing acc with
  | nil => rfl
  | cons a l ih =>
    simp only [List.filterAuxM]
    cases p a with
    | error e => rfl
    | ok keep =>
      show l.filterAuxM p _ = (l.filterAuxM p _).map _
      rw [ih, ih (cond keep [a] [])]
      cases l.filterAuxM p [] <;> cases keep <;> simp [Except.map]

theorem filterM_cons (p : α → Except ε Bool) (a : α) (l : List α) :
    (a :: l).filterM p = do
      let keep ← p a
      let kept ← l.filterM p
      return if keep then a :: kept else kept := by
  simp only [List.filterM, List.filterAuxM]
  cases p a with
  | error e => rfl
  | ok keep =>
    show (l.filterAuxM p _ >>= _) = ((l.filterAuxM p [] >>= _) >>= _)
    rw [filterAuxM_eq]
    cases l.filterAuxM p [] <;> cases keep <;>
      simp [Except.map, bind, Except.bind, pure, Except.pure]

theorem exists_filterM_eq_ok {p : α → Except ε Bool} {l : List α}
    (h : ∀ a ∈ l, ∃ keep, p a = .ok keep) : ∃ kept, l.filterM p = .ok kept := by
  induction l with
  | nil => exact ⟨[], rfl⟩
  | cons a l ih =>
    obtain ⟨⟨keep, hkeep⟩, hl⟩ := List.forall_mem_cons.1 h
    obtain ⟨kept, hkept⟩ := ih hl
    refine ⟨if keep then a :: kept else kept, ?_⟩
    rw [filterM_cons, hkeep, hkept]
    rfl

theorem filterM_eq_error {p : α → Except ε Bool} {l : List α} {e : ε}
    (honly : ∀ a ∈ l, ∀ d, p a = .error d → d = e) (hfails : ∃ a ∈ l, p a = .error e) :
    l.filterM p = .error e := by
  induction l with
  | nil => simp at hfails
  | cons a l ih =>
    obtain ⟨ha, hl⟩ := List.forall_mem_cons.1 honly
    rw [filterM_cons]
    cases hpa : p a with
    | error d =>
      rw [ha d hpa]
      rfl
    | ok keep =>
      obtain ⟨c, hc, hfails⟩ := hfails
      rcases List.mem_cons.1 hc with rfl | hc
      · simp [hpa] at hfails
      · rw [ih hl ⟨c, hc, hfails⟩]
        rfl

theorem mem_iff_of_filterM_eq_ok {p : α → Except ε Bool} {l kept : List α}
    (h : l.filterM p = .ok kept) {a : α} : a ∈ kept ↔ a ∈ l ∧ p a = .ok true := by
  induction l generalizing kept with
  | nil =>
    cases h
    simp
  | cons b l ih =>
    rw [filterM_cons] at h
    obtain ⟨keep, hkeep, h⟩ := bind_eq_ok_iff.1 h
    obtain ⟨rest, hrest, h⟩ := bind_eq_ok_iff.1 h
    cases h
    cases keep with
    | false =>
      have hne : p a = .ok true → a ≠ b := by
        rintro ha rfl
        simp [hkeep] at ha
      rw [if_neg Bool.false_ne_true, ih hrest, List.mem_cons]
      exact ⟨fun h => ⟨.inr h.1, h.2⟩, fun h => ⟨h.1.resolve_left (hne h.2), h.2⟩⟩
    | true =>
      rw [if_pos rfl, List.mem_cons, ih hrest, List.mem_cons]
      constructor
      · rintro (rfl | h)
        · exact ⟨.inl rfl, hkeep⟩
        · exact ⟨.inr h.1, h.2⟩
      · rintro ⟨rfl | hin, ha⟩
        · exact .inl rfl
        · exact .inr ⟨hin, ha⟩

end Except
