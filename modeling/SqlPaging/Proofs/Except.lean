/-!
# SqlPaging — steps that can fail

A sequence of steps gives a result just if each of them does. Two sequences end alike if they
do so step by step.
-/

namespace SqlPaging

variable {ε ε' α β : Type}

/-- A sequence gives a result just if its first step does, and the rest does with that. -/
@[simp] theorem bind_eq_ok {x : Except ε α} {f : α → Except ε β} {b : β} :
    (x >>= f) = .ok b ↔ ∃ a, x = .ok a ∧ f a = .ok b := by
  cases x with
  | error e => simp [bind, Except.bind]
  | ok a => simp [bind, Except.bind]

/-- A result that is changed comes of a result. -/
@[simp] theorem map_eq_ok {x : Except ε α} {f : α → β} {b : β} :
    x.map f = .ok b ↔ ∃ a, x = .ok a ∧ f a = b := by
  cases x with
  | error e => simp [Except.map]
  | ok a => simp [Except.map]

/-- Other words for a failure make no result. -/
@[simp] theorem mapError_eq_ok {x : Except ε α} {f : ε → ε'} {b : α} :
    x.mapError f = .ok b ↔ x = .ok b := by
  cases x with
  | error e =>
    constructor
    · intro h
      cases h
    · intro h
      cases h
  | ok a =>
    show Except.ok a = Except.ok b ↔ Except.ok a = Except.ok b
    rw [Except.ok.injEq, Except.ok.injEq]

/-- A sequence of steps fails where the first of them does or the rest. -/
theorem bind_eq_error {x : Except ε α} {f : α → Except ε β} {e : ε} :
    (x >>= f) = .error e ↔ x = .error e ∨ ∃ a, x = .ok a ∧ f a = .error e := by
  cases x with
  | error e' => simp [bind, Except.bind]
  | ok a => simp [bind, Except.bind]

theorem map_eq_error {x : Except ε α} {f : α → β} {e : ε} :
    x.map f = .error e ↔ x = .error e := by
  cases x with
  | error e' => simp [Except.map]
  | ok a => simp [Except.map]

/-- A failure in other words comes of a failure. -/
theorem mapError_eq_error {x : Except ε α} {f : ε → ε'} {e' : ε'} :
    x.mapError f = .error e' ↔ ∃ e, x = .error e ∧ f e = e' := by
  cases x with
  | error e =>
    show Except.error (f e) = Except.error e' ↔ _
    simp
  | ok a =>
    constructor
    · intro h
      cases h
    · rintro ⟨e, h, -⟩
      cases h

/-- A result that passes a test, as evaluation finds it. -/
theorem exists_eq_ok_of_any {x : Except ε α} {P : α → Prop} [DecidablePred P]
    (h : x.toOption.any (fun a => decide (P a)) = true) : ∃ a, x = .ok a ∧ P a := by
  cases x with
  | error e => cases h
  | ok a => exact ⟨a, rfl, of_decide_eq_true h⟩

/-- Each item of a run that succeeds has a step that does. -/
theorem exists_step_of_foldlM {f : β → α → Except ε β} {l : List α} {b b' : β}
    (h : l.foldlM f b = .ok b') {a : α} (ha : a ∈ l) : ∃ c c', f c a = .ok c' := by
  induction l generalizing b with
  | nil => cases ha
  | cons x l ih =>
    rw [List.foldlM_cons] at h
    obtain ⟨c, hc, hrest⟩ := bind_eq_ok.mp h
    rcases List.mem_cons.mp ha with rfl | ha
    · exact ⟨b, c, hc⟩
    · exact ih hrest ha

/-- What every step keeps, a run that succeeds keeps. -/
theorem foldlM_induction {P : β → Prop} {f : β → α → Except ε β} {l : List α} {b b' : β}
    (h : l.foldlM f b = .ok b') (hb : P b)
    (hstep : ∀ a ∈ l, ∀ c c', P c → f c a = .ok c' → P c') : P b' := by
  induction l generalizing b with
  | nil =>
    cases h
    exact hb
  | cons x l ih =>
    rw [List.foldlM_cons] at h
    -- the first step keeps the property, and the others start from there
    obtain ⟨c, hc, hrest⟩ := bind_eq_ok.mp h
    exact ih hrest (hstep x List.mem_cons_self b c hb hc)
      fun a ha => hstep a (List.mem_cons_of_mem x ha)

/-- A run over a list fails with a failure of one of its items. -/
theorem exists_of_mapM_eq_error {f : α → Except ε β} {l : List α} {e : ε}
    (h : l.mapM f = .error e) : ∃ a ∈ l, f a = .error e := by
  induction l with
  | nil => cases h
  | cons x l ih =>
    rw [List.mapM_cons, bind_eq_error] at h
    -- the first member fails, or a later one does
    rcases h with hx | ⟨b, -, h⟩
    · exact ⟨x, List.mem_cons_self, hx⟩
    · rcases bind_eq_error.mp h with hrest | ⟨bs, -, h⟩
      · obtain ⟨a, ha, hfa⟩ := ih hrest
        exact ⟨a, List.mem_cons_of_mem x ha, hfa⟩
      · cases h

/-! ## Two runs -/

/-- Two runs end alike: both fail in ways that go together, or both give results that do. -/
inductive Alike (E : ε → ε → Prop) (R : α → β → Prop) : Except ε α → Except ε β → Prop where
  | error {e e' : ε} : E e e' → Alike E R (.error e) (.error e')
  | ok {a : α} {b : β} : R a b → Alike E R (.ok a) (.ok b)

namespace Alike

variable {E : ε → ε → Prop} {R : α → β → Prop} {x : Except ε α} {y : Except ε β}

theorem of_eq (hE : ∀ e, E e e) (x : Except ε α) : Alike E Eq x x := by
  cases x with
  | error e => exact .error (hE e)
  | ok a => exact .ok rfl

theorem of_ok {a : α} {b : β} (h : Alike E R (.ok a) (.ok b)) : R a b := by
  cases h with
  | ok hr => exact hr

/-- Runs that go on alike end alike. -/
theorem bind {γ δ : Type} {S : γ → δ → Prop} {f : α → Except ε γ} {g : β → Except ε δ}
    (h : Alike E R x y) (hfg : ∀ a b, R a b → Alike E S (f a) (g b)) :
    Alike E S (x >>= f) (y >>= g) := by
  cases h with
  | error he => exact .error he
  | ok hr => exact hfg _ _ hr

/-- Results that go together may be changed together. -/
theorem map {γ δ : Type} {S : γ → δ → Prop} {f : α → γ} {g : β → δ} (h : Alike E R x y)
    (hfg : ∀ a b, R a b → S (f a) (g b)) : Alike E S (x.map f) (y.map g) := by
  cases h with
  | error he => exact .error he
  | ok hr => exact .ok (hfg _ _ hr)

theorem mapError {E' : ε' → ε' → Prop} {f : ε → ε'} (h : Alike E R x y)
    (hf : ∀ e e', E e e' → E' (f e) (f e')) : Alike E' R (x.mapError f) (y.mapError f) := by
  cases h with
  | error he => exact .error (hf _ _ he)
  | ok hr => exact .ok hr

end Alike

end SqlPaging
