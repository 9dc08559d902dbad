/-!
# Programs that may fail

What sequences of partial results give, alone and with a state that survives a failure.

Results:
1. `map_eq_ok_iff`, `bind_eq_ok_iff` and the equations beside them: a result goes through iff each
   of its parts does, and otherwise it is the error of the part that failed.
2. `EndsAlike`: two results that fail for one reason, or come to related values.
3. `run_bind` and the equations after it: a program with a state and errors, run at a state.
-/

namespace LogLayout

variable {ε ε' σ α β : Type} {s : σ}

/-! ## Results -/

theorem map_eq_ok_iff {result : Except ε α} {f : α → β} {b : β} :
    result.map f = .ok b ↔ ∃ a, result = .ok a ∧ f a = b := by
  cases result with
  | ok a => simp [Except.map]
  | error e => simp [Except.map]

theorem bind_eq_ok_iff {result : Except ε α} {f : α → Except ε β} {b : β} :
    result.bind f = .ok b ↔ ∃ a, result = .ok a ∧ f a = .ok b := by
  cases result with
  | ok a => simp [Except.bind]
  | error e => simp [Except.bind]

theorem map_eq_error_iff {result : Except ε α} {f : α → β} {e : ε} :
    result.map f = .error e ↔ result = .error e := by
  cases result with
  | ok a => simp [Except.map]
  | error e => simp [Except.map]

theorem mapError_eq_ok_iff {result : Except ε α} {f : ε → ε'} {a : α} :
    result.mapError f = .ok a ↔ result = .ok a := by
  cases result with
  | ok b =>
    show Except.ok b = .ok a ↔ _
    simp
  | error e =>
    show Except.error (f e) = .ok a ↔ _
    simp

theorem mapError_eq_error_iff {result : Except ε α} {f : ε → ε'} {e : ε'} :
    result.mapError f = .error e ↔ ∃ cause, result = .error cause ∧ f cause = e := by
  cases result with
  | ok a =>
    show Except.ok a = .error e ↔ _
    simp
  | error cause =>
    show Except.error (f cause) = .error e ↔ _
    simp

/-! ## Two results -/

/-- The results are the same error, or values that are related. -/
inductive EndsAlike (rel : α → β → Prop) : Except ε α → Except ε β → Prop
  | error (e : ε) : EndsAlike rel (.error e) (.error e)
  | ok {a : α} {b : β} : rel a b → EndsAlike rel (.ok a) (.ok b)

namespace EndsAlike

variable {rel : α → β → Prop} {first : Except ε α} {second : Except ε β}

theorem refl {rel : α → α → Prop} {result : Except ε α} (h : ∀ a, result = .ok a → rel a a) :
    EndsAlike rel result result := by
  cases result with
  | ok a => exact .ok (h a rfl)
  | error e => exact .error e

theorem mono {wider : α → β → Prop} (h : EndsAlike rel first second)
    (hwider : ∀ a b, rel a b → wider a b) : EndsAlike wider first second := by
  cases h with
  | error e => exact .error e
  | ok hab => exact .ok (hwider _ _ hab)

theorem eq {first second : Except ε α} (h : EndsAlike Eq first second) : first = second := by
  cases h with
  | error e => rfl
  | ok hab => rw [hab]

theorem mapError (h : EndsAlike rel first second) (f : ε → ε') :
    EndsAlike rel (first.mapError f) (second.mapError f) := by
  cases h with
  | error e => exact .error (f e)
  | ok hab => exact .ok hab

theorem map {α' β' : Type} {wider : α' → β' → Prop} {f : α → α'} {g : β → β'}
    (h : EndsAlike rel first second)
    (hwider : ∀ a b, rel a b → wider (f a) (g b)) :
    EndsAlike wider (first.map f) (second.map g) := by
  cases h with
  | error e => exact .error e
  | ok hab => exact .ok (hwider _ _ hab)

end EndsAlike

/-! ## Programs with a state -/

/-- A sequence goes on from the state that its first part left, unless that part failed. -/
theorem run_bind (x : ExceptT ε (StateM σ) α) (f : α → ExceptT ε (StateM σ) β) :
    (x >>= f).run.run s =
      match x.run.run s with
      | (.ok a, t) => (f a).run.run t
      | (.error e, t) => (.error e, t) := by
  simp only [ExceptT.run_bind, StateT.run_bind]
  rcases StateT.run x.run s with ⟨result, t⟩
  cases result <;> rfl

/-- A result from outside leaves the state alone. -/
theorem run_lift_bind (result : Except ε α) (f : α → ExceptT ε (StateM σ) β) :
    ((liftM result : ExceptT ε (StateM σ) α) >>= f).run.run s =
      match result with
      | .ok a => (f a).run.run s
      | .error e => (.error e, s) := by
  rw [run_bind]
  cases result <;> rfl

theorem run_get_bind (f : σ → ExceptT ε (StateM σ) β) :
    (get >>= f).run.run s = (f s).run.run s :=
  rfl

theorem run_modify_bind (g : σ → σ) (f : Unit → ExceptT ε (StateM σ) β) :
    (modify g >>= f).run.run s = (f ()).run.run (g s) :=
  rfl

end LogLayout
