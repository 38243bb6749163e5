import DocShell.Proofs.Number.Rounding

namespace DocShell

/-! # The nearest magnitude

What rounding does to a quotient that is no magnitude itself. A quotient within half
a unit in the last place of a magnitude goes to that magnitude, and a quotient above a
magnitude does not go below it. -/

theorem nearestQuotient_eq {numerator denominator whole : Nat}
    (below : 2 * whole * denominator < 2 * numerator + denominator)
    (above : 2 * numerator < (2 * whole + 1) * denominator) :
    nearestQuotient numerator denominator = whole := by
  have parts := Nat.div_add_mod numerator denominator
  have positive : 0 < denominator := by
    refine Nat.pos_of_ne_zero fun zero => ?_
    rw [zero, Nat.mul_zero] at above
    omega
  have rest := Nat.mod_lt numerator positive
  simp only [nearestQuotient]
  generalize numerator % denominator = remainder at parts rest ⊢
  generalize numerator / denominator = quotient at parts ⊢
  rw [Nat.add_mul, Nat.one_mul] at above
  rcases Nat.lt_trichotomy quotient whole with less | rfl | more
  · -- just below the whole number
    have next := Nat.mul_le_mul_left denominator (show quotient + 1 ≤ whole from less)
    rw [Nat.mul_add, Nat.mul_one] at next
    have whole' : 2 * whole * denominator = 2 * (denominator * whole) := by
      rw [Nat.mul_assoc, Nat.mul_comm whole]
    have equal : whole = quotient + 1 := by
      refine Nat.le_antisymm (Nat.le_of_not_lt fun far => ?_) less
      have further := Nat.mul_le_mul_left denominator (show quotient + 2 ≤ whole from far)
      rw [Nat.mul_add] at further
      omega
    rw [if_neg (by omega), if_pos (by omega), equal]
  · have whole' : 2 * quotient * denominator = 2 * (denominator * quotient) := by
      rw [Nat.mul_assoc, Nat.mul_comm quotient]
    rw [if_pos (by omega)]
  · have next := Nat.mul_le_mul_left denominator (show whole + 1 ≤ quotient from more)
    rw [Nat.mul_add, Nat.mul_one] at next
    have whole' : 2 * whole * denominator = 2 * (denominator * whole) := by
      rw [Nat.mul_assoc, Nat.mul_comm whole]
    omega

namespace Magnitude

/-- The shift of the numbers with one count of bits. -/
theorem shiftFor_eq {units shift : Nat} (upper : units < 2 ^ 53 * 2 ^ shift)
    (lower : shift = 0 ∨ 2 ^ 52 * 2 ^ shift ≤ units) : shiftFor units = shift := by
  rw [shiftFor]
  rcases Nat.eq_zero_or_pos units with rfl | positive
  · rcases lower with rfl | large
    · decide
    · exact absurd large (Nat.not_le.mpr (Nat.mul_pos (by decide) (Nat.two_pow_pos shift)))
  have nonzero : units ≠ 0 := Nat.ne_of_gt positive
  rw [← Nat.pow_add] at upper
  have high := (Nat.log2_lt nonzero).mpr upper
  rcases lower with rfl | large
  · omega
  · rw [← Nat.pow_add] at large
    have low := (Nat.le_log2 nonzero).mpr large
    omega

/-- A quotient within half a unit in the last place goes to the magnitude. Below a
magnitude whose mantissa is the smallest one, the places are finer. -/
theorem nearest?_eq {magnitude : Magnitude} {numerator denominator : Nat}
    (below : 2 * (magnitude.units * denominator) <
      2 * numerator + denominator * 2 ^ magnitude.shift)
    (above : 2 * numerator <
      2 * (magnitude.units * denominator) + denominator * 2 ^ magnitude.shift)
    (room : magnitude.units * denominator ≤ numerator ∨ magnitude.shift = 0 ∨
      2 ^ 52 < magnitude.mantissa) :
    nearest? numerator denominator = some magnitude := by
  rcases magnitude with ⟨mantissa, shift, mantissa_lt, shift_le, full⟩
  simp only [units] at below above room ⊢
  have place : mantissa * 2 ^ shift * denominator = mantissa * (denominator * 2 ^ shift) := by
    rw [Nat.mul_assoc, Nat.mul_comm (2 ^ shift)]
  rw [place] at below above room
  have positive : 0 < denominator := by
    refine Nat.pos_of_ne_zero fun zero => ?_
    subst zero
    simp at below above
  have rounded : nearestQuotient numerator (denominator * 2 ^ shift) = mantissa := by
    refine nearestQuotient_eq ?_ ?_
    · rwa [Nat.mul_assoc]
    · rwa [Nat.add_mul, Nat.mul_assoc, Nat.one_mul]
  -- A number just below a power of two would be rounded at a finer place, which `room` excludes.
  have quotient : shiftFor (numerator / denominator) = shift := by
    refine shiftFor_eq ?_ ?_
    · rw [Nat.div_lt_iff_lt_mul positive]
      have scaled := Nat.mul_le_mul_right (denominator * 2 ^ shift)
        (show mantissa + 1 ≤ 2 ^ 53 from mantissa_lt)
      rw [Nat.add_mul, Nat.one_mul] at scaled
      rw [Nat.mul_assoc, Nat.mul_comm (2 ^ shift)]
      omega
    · by_cases unshifted : shift = 0
      · exact .inl unshifted
      refine .inr ((Nat.le_div_iff_mul_le positive).mpr ?_)
      rw [Nat.mul_assoc, Nat.mul_comm (2 ^ shift)]
      rcases room with higher | unshifted' | larger
      · exact Nat.le_trans (Nat.mul_le_mul_right _ (full.resolve_left unshifted)) higher
      · exact absurd unshifted' unshifted
      · have scaled := Nat.mul_le_mul_right (denominator * 2 ^ shift)
          (show 2 ^ 52 + 1 ≤ mantissa from larger)
        rw [Nat.add_mul, Nat.one_mul] at scaled
        omega
  simp only [nearest?, quotient, rounded, mantissa_lt, shift_le, dite_true]

theorem units_lt (magnitude : Magnitude) : magnitude.units < 2 ^ 53 * 2 ^ magnitude.shift :=
  Nat.mul_lt_mul_of_pos_right magnitude.mantissa_lt (Nat.two_pow_pos _)

theorem shift_le_shiftFor {magnitude : Magnitude} {whole : Nat} (above : magnitude.units ≤ whole) :
    magnitude.shift ≤ shiftFor whole := by
  rw [← shiftFor_units magnitude, shiftFor, shiftFor]
  rcases Nat.eq_zero_or_pos magnitude.units with zero | positive
  · rw [zero]
    exact Nat.zero_le _
  · have log := (Nat.le_log2 (Nat.ne_of_gt (Nat.lt_of_lt_of_le positive above))).mpr
      (Nat.le_trans (Nat.log2_self_le (Nat.ne_of_gt positive)) above)
    omega

/-- The nearest magnitude has the rounded mantissa, or the next full one. -/
theorem units_of_nearest? {numerator denominator : Nat} {rounded : Magnitude}
    (found : nearest? numerator denominator = some rounded) :
    rounded.units = nearestQuotient numerator
        (denominator * 2 ^ shiftFor (numerator / denominator)) *
          2 ^ shiftFor (numerator / denominator) ∨
      rounded.units = 2 ^ 52 * 2 ^ (shiftFor (numerator / denominator) + 1) := by
  simp only [nearest?] at found
  split at found
  · split at found
    · cases found
      exact .inl rfl
    · cases found
  · split at found
    · cases found
      exact .inr rfl
    · cases found

/-- A quotient above a magnitude does not go below it. -/
theorem units_le_of_nearest? {magnitude rounded : Magnitude} {numerator denominator : Nat}
    (positive : 0 < denominator) (above : magnitude.units * denominator ≤ numerator)
    (found : nearest? numerator denominator = some rounded) : magnitude.units ≤ rounded.units := by
  have quotient := (Nat.le_div_iff_mul_le positive).mpr above
  have order := shift_le_shiftFor quotient
  have full := @full_of_shiftFor numerator denominator
  have bound := Nat.le_of_lt magnitude.units_lt
  have units := units_of_nearest? found
  have whole := div_le_nearestQuotient numerator
    (denominator * 2 ^ shiftFor (numerator / denominator))
  rw [← Nat.div_div_eq_div_mul] at whole
  generalize nearestQuotient numerator (denominator * 2 ^ shiftFor (numerator / denominator)) =
    mantissa at units full whole
  generalize numerator / denominator = large at quotient order full units whole
  generalize shiftFor large = shift at order full units whole
  have next (power : Nat) : 2 ^ 53 * 2 ^ power = 2 ^ 52 * 2 ^ (power + 1) := by
    rw [← Nat.pow_add, ← Nat.pow_add]
    congr 1
    omega
  -- Rounding keeps to its place, or carries to the first magnitude of the next one.
  rcases units with equal | equal
  · rw [equal]
    rcases Nat.eq_or_lt_of_le order with same | finer
    · refine Nat.mul_le_mul ?_ (Nat.pow_le_pow_right (by decide) order)
      refine Nat.le_trans ((Nat.le_div_iff_mul_le (Nat.two_pow_pos shift)).mpr ?_) whole
      rwa [← same]
    · calc magnitude.units
          ≤ 2 ^ 53 * 2 ^ magnitude.shift := bound
        _ = 2 ^ 52 * 2 ^ (magnitude.shift + 1) := next _
        _ ≤ 2 ^ 52 * 2 ^ shift := Nat.mul_le_mul_left _ (Nat.pow_le_pow_right (by decide) finer)
        _ ≤ mantissa * 2 ^ shift := Nat.mul_le_mul_right _ (full (by omega))
  · calc magnitude.units
        ≤ 2 ^ 53 * 2 ^ magnitude.shift := bound
      _ ≤ 2 ^ 53 * 2 ^ shift := Nat.mul_le_mul_left _ (Nat.pow_le_pow_right (by decide) order)
      _ = rounded.units := by rw [next, equal]

end Magnitude

end DocShell
