import DocShell.Proofs.Number.Whole

namespace DocShell

/-! # Exact whole numbers

A numeral that denotes a whole number is read as the double of that integer, however it
is spelled. -/

/-- A numeral that denotes a whole number is read as the double of that number. -/
theorem Numeral.toDouble_of_value_eq {numeral : Numeral} {whole : ℕ}
    (exact : numeral.value = whole) : numeral.toDouble false = Double.ofInt whole := by
  rw [Numeral.toDouble, ← Double.ofDecimal_zero]
  refine Double.ofDecimal_congr false ?_
  rw [← Numeral.value, exact, zpow_zero, mul_one]

/-! ## Signs -/

namespace Sign

def applied : Sign → ℚ → ℚ
  | .plus, value => value
  | .minus, value => -value

/-- A number behind a run of signs, of which the last one is applied first. -/
def appliedAll (signs : List Sign) (value : ℚ) : ℚ := signs.foldr applied value

def negates : List Sign → Bool
  | [] => false
  | .plus :: signs => negates signs
  | .minus :: signs => !negates signs

theorem appliedAll_eq (signs : List Sign) (value : ℚ) :
    appliedAll signs value = if negates signs then -value else value := by
  induction signs with
  | nil => rfl
  | cons sign signs induction =>
      rw [appliedAll, List.foldr_cons, ← appliedAll, induction]
      cases sign with
      | plus => rfl
      | minus => cases found : negates signs <;> simp [negates, applied, found]

end Sign

end DocShell
