namespace DocShell

/-! Magnitudes of binary64 numbers, exactly. Every finite binary64 number is a
whole multiple of one unit, 2^-1074. A magnitude is therefore a mantissa of at
most 53 bits and a left shift, and it is spelled in one way only: a shifted
mantissa uses all of its 53 bits.

Rounding is the one place where exactness ends. A quotient of units goes to the
nearest magnitude, a half to the one with an even mantissa. -/

/-! Powers of whole numbers are those that these numbers come with, also where powers
in monoids are in scope. -/

@[default_instance 20000]
instance (priority := 20000) naturalPower : Pow Nat Nat := instPowNat

@[default_instance 19999]
instance (priority := 20000) integerPower : Pow Int Nat := instPowNat

/-- The nearest whole number to a quotient; a half goes to the even neighbour. -/
def nearestQuotient (numerator denominator : Nat) : Nat :=
  let whole := numerator / denominator
  let twiceRest := 2 * (numerator % denominator)
  if twiceRest < denominator then whole
  else if denominator < twiceRest then whole + 1
  else if whole % 2 = 0 then whole
  else whole + 1

theorem div_le_nearestQuotient (numerator denominator : Nat) :
    numerator / denominator ≤ nearestQuotient numerator denominator := by
  simp only [nearestQuotient]
  split
  · exact Nat.le_refl _
  · split
    · exact Nat.le_succ _
    · split
      · exact Nat.le_refl _
      · exact Nat.le_succ _

theorem nearestQuotient_le (numerator denominator : Nat) :
    nearestQuotient numerator denominator ≤ numerator / denominator + 1 := by
  simp only [nearestQuotient]
  repeat' split
  all_goals omega

example : nearestQuotient 5 2 = 2 ∧ nearestQuotient 7 2 = 4 ∧ nearestQuotient 8 3 = 3 := by
  decide

structure Magnitude where
  mantissa : Nat
  shift : Nat
  mantissa_lt : mantissa < 2 ^ 53
  shift_le : shift ≤ 2045
  full : shift = 0 ∨ 2 ^ 52 ≤ mantissa
deriving DecidableEq

namespace Magnitude

def unitsPerOne : Nat := 2 ^ 1074

def units (magnitude : Magnitude) : Nat := magnitude.mantissa * 2 ^ magnitude.shift

def zero : Magnitude := ⟨0, 0, by decide, by decide, .inl rfl⟩

@[simp] theorem units_zero : zero.units = 0 := by decide

def shiftFor (units : Nat) : Nat := units.log2 - 52

theorem full_of_shiftFor {numerator denominator : Nat}
    (shifted : shiftFor (numerator / denominator) ≠ 0) :
    2 ^ 52 ≤ nearestQuotient numerator
      (denominator * 2 ^ shiftFor (numerator / denominator)) := by
  refine Nat.le_trans ?_ (div_le_nearestQuotient _ _)
  rw [← Nat.div_div_eq_div_mul]
  generalize numerator / denominator = whole at shifted ⊢
  simp only [shiftFor] at shifted ⊢
  have nonzero : whole ≠ 0 := by
    intro equal
    subst equal
    simp at shifted
  rw [Nat.le_div_iff_mul_le (Nat.two_pow_pos _), ← Nat.pow_add,
    show 52 + (whole.log2 - 52) = whole.log2 by omega]
  exact Nat.log2_self_le nonzero

/-- The magnitude nearest to a quotient of units, or nothing when that lies
beyond the largest magnitude. A mantissa that rounds up to 2^53 moves to the
next shift. -/
def nearest? (numerator denominator : Nat) : Option Magnitude :=
  let shift := shiftFor (numerator / denominator)
  let mantissa := nearestQuotient numerator (denominator * 2 ^ shift)
  if fits : mantissa < 2 ^ 53 then
    if bounded : shift ≤ 2045 then
      some ⟨mantissa, shift, fits, bounded,
        (Decidable.em (shift = 0)).imp id full_of_shiftFor⟩
    else none
  else
    if bounded : shift + 1 ≤ 2045 then
      some ⟨2 ^ 52, shift + 1, by decide, bounded, .inr (Nat.le_refl _)⟩
    else none

end Magnitude

end DocShell
