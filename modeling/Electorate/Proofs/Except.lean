/-! Results that may be errors: when a chain of steps succeeds, and which step of it is the one that
fails. -/
namespace Electorate

section
variable {ε α β : Type}

theorem bind_eq_ok_iff {x : Except ε α} {f : α → Except ε β} {b : β} :
    x >>= f = .ok b ↔ ∃ a, x = .ok a ∧ f a = .ok b := by
  constructor
  · intro h
    cases x with
    | error e => cases h
    | ok a => exact ⟨a, rfl, h⟩
  · intro h
    obtain ⟨a, rfl, h⟩ := h
    exact h

theorem bind_eq_error_iff {x : Except ε α} {f : α → Except ε β} {e : ε} :
    x >>= f = .error e ↔ x = .error e ∨ ∃ a, x = .ok a ∧ f a = .error e := by
  cases x with
  | error e' =>
    constructor
    · intro h
      exact Or.inl (congrArg Except.error (Except.error.inj h))
    · intro h
      rcases h with h | ⟨a, ha, -⟩
      · rw [h]
        rfl
      · cases ha
  | ok a =>
    constructor
    · intro h
      exact Or.inr ⟨a, rfl, h⟩
    · intro h
      rcases h with h | ⟨a', ha, h⟩
      · cases h
      · rw [Except.ok.inj ha]
        exact h

theorem exists_of_map_eq_ok {x : Except ε α} {f : α → β} {b : β} (h : x.map f = .ok b) :
    ∃ a, x = .ok a ∧ f a = b := by
  cases x with
  | error e => cases h
  | ok a => exact ⟨a, rfl, Except.ok.inj h⟩

theorem eq_ok_of_mapError {ε' : Type} {x : Except ε α} {f : ε → ε'} {a : α}
    (h : x.mapError f = .ok a) : x = .ok a := by
  cases x with
  | error e => cases h
  | ok a => exact congrArg Except.ok (Except.ok.inj h)

theorem mapError_eq_error_iff {ε' : Type} {x : Except ε α} {f : ε → ε'} {e' : ε'} :
    x.mapError f = .error e' ↔ ∃ e, x = .error e ∧ f e = e' := by
  cases x with
  | error e =>
    constructor
    · intro h
      exact ⟨e, rfl, Except.error.inj h⟩
    · intro h
      obtain ⟨_, he, rfl⟩ := h
      rw [Except.error.inj he]
      rfl
  | ok a =>
    constructor
    · intro h
      cases h
    · intro h
      obtain ⟨e, he, -⟩ := h
      cases he

variable {f : β → α → Except ε β} {l : List α}

/-- What each step keeps, a run that does not fail keeps. -/
theorem of_foldlM_eq_ok {P : β → Prop}
    (hstep : ∀ b a b', a ∈ l → P b → f b a = .ok b' → P b') {b b' : β} (hb : P b)
    (h : l.foldlM f b = .ok b') : P b' := by
  induction l generalizing b with
  | nil => exact Except.ok.inj h ▸ hb
  | cons a l ih =>
    rw [List.foldlM_cons, bind_eq_ok_iff] at h
    obtain ⟨next, hnext, h⟩ := h
    have hkeep : ∀ b a b', a ∈ l → P b → f b a = .ok b' → P b' := by
      intro b a b' ha
      exact hstep b a b' (List.mem_cons_of_mem _ ha)
    exact ih hkeep (hstep b a next List.mem_cons_self hb hnext) h

/-- A run fails at the first step that fails, with the error of that step. -/
theorem foldlM_eq_error_iff {b : β} {e : ε} : l.foldlM f b = .error e ↔
    ∃ before a after b', l = before ++ a :: after ∧ before.foldlM f b = .ok b' ∧
      f b' a = .error e := by
  induction l generalizing b with
  | nil =>
    constructor
    · intro h
      cases h
    · intro h
      obtain ⟨before, a, after, b', hsplit, -⟩ := h
      simp at hsplit
  | cons first l ih =>
    rw [List.foldlM_cons, bind_eq_error_iff]
    constructor
    · intro h
      rcases h with hfirst | ⟨next, hnext, h⟩
      · exact ⟨[], first, l, b, rfl, rfl, hfirst⟩
      · obtain ⟨before, a, after, b', rfl, hbefore, ha⟩ := ih.mp h
        refine ⟨first :: before, a, after, b', rfl, ?_, ha⟩
        rw [List.foldlM_cons, bind_eq_ok_iff]
        exact ⟨next, hnext, hbefore⟩
    · intro h
      obtain ⟨before, a, after, b', hsplit, hbefore, ha⟩ := h
      cases before with
      | nil =>
        obtain ⟨rfl, rfl⟩ := List.cons.inj hsplit
        rw [Except.ok.inj hbefore]
        exact Or.inl ha
      | cons x before =>
        obtain ⟨rfl, rfl⟩ := List.cons.inj hsplit
        rw [List.foldlM_cons, bind_eq_ok_iff] at hbefore
        obtain ⟨next, hnext, hbefore⟩ := hbefore
        exact Or.inr ⟨next, hnext, ih.mpr ⟨before, a, after, b', rfl, hbefore, ha⟩⟩

end

end Electorate
