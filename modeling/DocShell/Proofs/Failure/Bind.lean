namespace DocShell

/-! # Steps that may fail

A step after another one succeeds just if both do, the second one on the result of
the first. -/

variable {ε α β : Type} {first : Except ε α} {result : β}

theorem bind_eq_ok {next : α → Except ε β} :
    (first >>= next) = .ok result ↔ ∃ item, first = .ok item ∧ next item = .ok result := by
  cases first with
  | error failure =>
      constructor
      · intro equal
        cases equal
      · rintro ⟨item, equal, _⟩
        cases equal
  | ok item =>
      constructor
      · intro equal
        exact ⟨item, rfl, equal⟩
      · rintro ⟨_, equal, found⟩
        cases equal
        exact found

/-- A step after another one fails if the first one does, or the second one on the result
of the first. -/
theorem bind_eq_error {next : α → Except ε β} {failure : ε} :
    (first >>= next) = .error failure ↔
      first = .error failure ∨ ∃ item, first = .ok item ∧ next item = .error failure := by
  cases first with
  | error other =>
      constructor
      · intro equal
        cases equal
        exact .inl rfl
      · rintro (equal | ⟨_, equal, _⟩)
        · cases equal
          rfl
        · cases equal
  | ok item =>
      constructor
      · intro equal
        exact .inr ⟨item, rfl, equal⟩
      · rintro (equal | ⟨_, equal, failed⟩)
        · cases equal
        · cases equal
          exact failed

theorem bind_pure_eq_ok {transform : α → β} :
    (first >>= fun item => pure (transform item)) = .ok result ↔
      ∃ item, first = .ok item ∧ transform item = result := by
  simp only [bind_eq_ok, pure, Except.pure, Except.ok.injEq]

theorem bind_pure_eq_error {transform : α → β} {failure : ε} :
    (first >>= fun item => pure (transform item)) = .error failure ↔ first = .error failure := by
  simp only [bind_eq_error, pure, Except.pure, reduceCtorEq, and_false, exists_false, or_false]

/-! ## Kinds of failures -/

def FailsOnly (allowed : ε → Prop) (result : Except ε α) : Prop :=
  ∀ failure, result = .error failure → allowed failure

variable {allowed : ε → Prop}

theorem failsOnly_ok (item : α) : FailsOnly allowed (.ok item) := by
  intro failure equal
  cases equal

theorem failsOnly_error {failure : ε} (fits : allowed failure) :
    FailsOnly allowed (.error failure : Except ε α) := by
  intro other equal
  cases equal
  exact fits

theorem FailsOnly.bind {next : α → Except ε β} (start : FailsOnly allowed first)
    (onward : ∀ item, FailsOnly allowed (next item)) : FailsOnly allowed (first >>= next) := by
  intro failure equal
  rcases bind_eq_error.mp equal with failed | ⟨item, _, failed⟩
  · exact start failure failed
  · exact onward item failure failed

theorem FailsOnly.map {transform : α → β} (start : FailsOnly allowed first) :
    FailsOnly allowed (first.map transform) := by
  cases first with
  | error failure => exact failsOnly_error (start failure rfl)
  | ok item => exact failsOnly_ok _

theorem FailsOnly.imp {weaker : ε → Prop} (start : FailsOnly allowed first)
    (implies : ∀ failure, allowed failure → weaker failure) : FailsOnly weaker first :=
  fun failure equal => implies failure (start failure equal)

end DocShell
