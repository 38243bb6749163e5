import DocShell.Proofs.Number.Nearest
import DocShell.Proofs.Number.Whole

namespace DocShell

/-! # The double closest to a whole number

No double is closer to a whole number than the one that the number is rounded to, and
one that is as close leaves it with an even mantissa. From halfway between the largest
double and the next power of two on, numbers are infinite. -/

/-! ## Quotients -/

section

variable (numerator : Nat) {denominator : Nat} (positive : 0 < denominator)

include positive

/-- A quotient is rounded by half of the denominator at most, and by just that half only
to an even number. -/
theorem nearestQuotient_bounds :
    2 * (nearestQuotient numerator denominator * denominator) ≤ 2 * numerator + denominator ∧
      2 * numerator ≤ 2 * (nearestQuotient numerator denominator * denominator) + denominator ∧
      (2 * (nearestQuotient numerator denominator * denominator) = 2 * numerator + denominator ∨
        2 * numerator = 2 * (nearestQuotient numerator denominator * denominator) + denominator →
          nearestQuotient numerator denominator % 2 = 0) := by
  have parts := Nat.div_add_mod' numerator denominator
  have rest := Nat.mod_lt numerator positive
  simp only [nearestQuotient]
  generalize numerator % denominator = remainder at parts rest ⊢
  generalize numerator / denominator = quotient at parts ⊢
  have next : (quotient + 1) * denominator = quotient * denominator + denominator :=
    Nat.succ_mul quotient denominator
  repeat' split
  all_goals omega

/-- No other multiple of the denominator is closer. -/
theorem nearestQuotient_closest (other : Nat) :
    (((nearestQuotient numerator denominator * denominator : Nat) : Int) - numerator).natAbs ≤
        (((other * denominator : Nat) : Int) - numerator).natAbs ∧
      (other ≠ nearestQuotient numerator denominator →
        (((other * denominator : Nat) : Int) - numerator).natAbs =
          (((nearestQuotient numerator denominator * denominator : Nat) : Int) - numerator).natAbs →
        nearestQuotient numerator denominator % 2 = 0) := by
  rcases nearestQuotient_bounds numerator positive with ⟨low, high, even⟩
  generalize nearestQuotient numerator denominator = whole at low high even ⊢
  rcases Nat.lt_trichotomy other whole with less | rfl | more
  · have step := Nat.mul_le_mul_right denominator (show other + 1 ≤ whole from less)
    rw [Nat.succ_mul] at step
    omega
  · exact ⟨Nat.le_refl _, fun distinct => absurd rfl distinct⟩
  · have step := Nat.mul_le_mul_right denominator (show whole + 1 ≤ other from more)
    rw [Nat.succ_mul] at step
    omega

end

/-! ## Magnitudes -/

namespace Magnitude

def distance (magnitude : Magnitude) (units : Nat) : Nat :=
  ((magnitude.units : Int) - units).natAbs

theorem lt_shiftFor (units : Nat) : units < 2 ^ 53 * 2 ^ shiftFor units := by
  rcases Nat.eq_zero_or_pos units with rfl | positive
  · decide
  · rw [← Nat.pow_add]
    refine (Nat.log2_lt (Nat.ne_of_gt positive)).mp ?_
    rw [shiftFor]
    omega

theorem le_of_shiftFor_ne_zero {units : Nat} (shifted : shiftFor units ≠ 0) :
    2 ^ 52 * 2 ^ shiftFor units ≤ units := by
  have log : shiftFor units + 52 = units.log2 := by
    rw [shiftFor] at shifted ⊢
    omega
  have nonzero : units ≠ 0 := by
    rintro rfl
    exact shifted rfl
  rw [← Nat.pow_add, Nat.add_comm, log]
  exact Nat.log2_self_le nonzero

theorem two_pow_53_mul (shift : Nat) : 2 ^ 53 * 2 ^ shift = 2 ^ 52 * 2 ^ (shift + 1) := by
  rw [← Nat.pow_add, ← Nat.pow_add]
  congr 1
  omega

/-- A mantissa that uses all of its bits, under any shift. -/
theorem nearest?_full {mantissa : Nat} (full : 2 ^ 52 ≤ mantissa) (fits : mantissa < 2 ^ 53)
    (shift : Nat) :
    nearest? (mantissa * 2 ^ shift) 1 =
      if bounded : shift ≤ 2045 then some ⟨mantissa, shift, fits, bounded, .inr full⟩
      else none := by
  split
  · rename_i bounded
    have exact := nearest?_units ⟨mantissa, shift, fits, bounded, .inr full⟩ Nat.one_pos
    rwa [Nat.mul_one] at exact
  · rename_i beyond
    refine nearest?_eq_none (show 2098 ≤ 52 + shift by omega) ?_
    rw [Nat.div_one, Nat.pow_add]
    exact Nat.mul_le_mul_right _ full

section

variable {units shift : Nat} (lower : 2 ^ 52 * 2 ^ shift ≤ units)
  (upper : units < 2 ^ 53 * 2 ^ shift)

include lower upper

theorem nearestQuotient_full :
    2 ^ 52 ≤ nearestQuotient units (2 ^ shift) ∧ nearestQuotient units (2 ^ shift) ≤ 2 ^ 53 := by
  have power := Nat.two_pow_pos shift
  have least := (Nat.le_div_iff_mul_le power).mpr lower
  have most := (Nat.div_lt_iff_lt_mul power).mpr upper
  have low := div_le_nearestQuotient units (2 ^ shift)
  have high := nearestQuotient_le units (2 ^ shift)
  omega

/-- A count of units is rounded to its first 53 bits, and goes where these go. -/
theorem nearest?_eq_nearest?_rounded :
    nearest? units 1 = nearest? (nearestQuotient units (2 ^ shift) * 2 ^ shift) 1 := by
  have bounds := nearestQuotient_full lower upper
  have place := shiftFor_eq upper (.inr lower)
  by_cases fits : nearestQuotient units (2 ^ shift) < 2 ^ 53
  · rw [nearest?_full bounds.1 fits]
    simp only [nearest?, Nat.div_one, Nat.one_mul, place, fits, dite_true]
  · -- the next bit moves the mantissa into the next shift
    have carry := Nat.le_antisymm bounds.2 (Nat.le_of_not_lt fits)
    rw [carry, two_pow_53_mul, nearest?_full (Nat.le_refl _) (by decide)]
    simp only [nearest?, Nat.div_one, Nat.one_mul, place, fits, dite_false]

end

theorem ext_units {left right : Magnitude} (same : left.units = right.units) : left = right := by
  have shifts : left.shift = right.shift := by
    rw [← shiftFor_units left, ← shiftFor_units right, same]
  have mantissas : left.mantissa = right.mantissa := by
    rw [units, units, shifts] at same
    exact Nat.mul_right_cancel (Nat.two_pow_pos right.shift) same
  cases left
  cases right
  cases shifts
  cases mantissas
  rfl

/-- What is left of a number of units that has a nearest magnitude. -/
theorem of_nearest? {units : Nat} {rounded : Magnitude} (found : nearest? units 1 = some rounded) :
    rounded.units = nearestQuotient units (2 ^ shiftFor units) * 2 ^ shiftFor units ∧
      (nearestQuotient units (2 ^ shiftFor units) % 2 = 0 → rounded.mantissa % 2 = 0) := by
  -- Up to 53 bits nothing is rounded. Beyond them rounding may carry into a bit more.
  rcases Nat.eq_zero_or_pos (shiftFor units) with unshifted | shifted
  · have small := lt_shiftFor units
    rw [unshifted] at small ⊢
    have exact := nearest?_units ⟨units, 0, by omega, by decide, .inl rfl⟩ Nat.one_pos
    have same : (⟨units, 0, by omega, by decide, .inl rfl⟩ : Magnitude).units = units := by
      simp [units_mk]
    rw [same, Nat.mul_one, found] at exact
    cases exact
    have whole := nearestQuotient_mul_self units Nat.one_pos
    rw [Nat.mul_one] at whole
    rw [Nat.pow_zero, whole]
    exact ⟨same.trans (Nat.mul_one units).symm, id⟩
  · have lower := le_of_shiftFor_ne_zero (Nat.ne_of_gt shifted)
    have upper := lt_shiftFor units
    have bounds := nearestQuotient_full lower upper
    rw [nearest?_eq_nearest?_rounded lower upper] at found
    rcases Nat.lt_or_eq_of_le bounds.2 with fits | carry
    · rw [nearest?_full bounds.1 fits] at found
      split at found
      · cases found
        exact ⟨rfl, id⟩
      · cases found
    · rw [carry, two_pow_53_mul, nearest?_full (Nat.le_refl _) (by decide)] at found
      split at found
      · cases found
        exact ⟨by rw [carry, two_pow_53_mul]; rfl, fun _ => (by decide : 2 ^ 52 % 2 = 0)⟩
      · cases found

/-- No magnitude is closer than the nearest one, which is even if another is as close. -/
theorem distance_le_of_nearest? {units : Nat} {rounded : Magnitude}
    (found : nearest? units 1 = some rounded) (other : Magnitude) :
    rounded.distance units ≤ other.distance units ∧
      (other ≠ rounded → other.distance units = rounded.distance units →
        rounded.mantissa % 2 = 0) := by
  rcases of_nearest? found with ⟨equal, even⟩
  simp only [distance, equal]
  by_cases finer : other.shift < shiftFor units
  · -- magnitudes with finer places lie below the first one with this shift
    have lower := le_of_shiftFor_ne_zero (Nat.ne_of_gt (Nat.zero_lt_of_lt finer))
    have closest := (nearestQuotient_closest units (Nat.two_pow_pos (shiftFor units)) (2 ^ 52)).1
    have below : other.units < 2 ^ 52 * 2 ^ shiftFor units := by
      refine Nat.lt_of_lt_of_le other.units_lt ?_
      calc 2 ^ 53 * 2 ^ other.shift
          = 2 ^ 52 * 2 ^ (other.shift + 1) := two_pow_53_mul other.shift
        _ ≤ 2 ^ 52 * 2 ^ shiftFor units :=
            Nat.mul_le_mul_left _ (Nat.pow_le_pow_right (by decide) finer)
    omega
  · -- all others are multiples of the place
    have multiple : other.units =
        other.mantissa * 2 ^ (other.shift - shiftFor units) * 2 ^ shiftFor units := by
      rw [Nat.mul_assoc, ← Nat.pow_add, Nat.sub_add_cancel (Nat.le_of_not_lt finer)]
      rfl
    have closest := nearestQuotient_closest units (Nat.two_pow_pos (shiftFor units))
      (other.mantissa * 2 ^ (other.shift - shiftFor units))
    rw [← multiple] at closest
    refine ⟨closest.1, fun distinct tie => even (closest.2 (fun same => ?_) tie)⟩
    refine distinct (ext_units ?_)
    rw [multiple, same, equal]

/-- Rounding needs another bit from halfway between the last full mantissa and the next
power of two on. -/
theorem nearestQuotient_lt_iff {units power : Nat} (lower : 2 ^ 52 * 2 ^ (power + 1) ≤ units)
    (upper : units < 2 ^ 53 * 2 ^ (power + 1)) :
    nearestQuotient units (2 ^ (power + 1)) < 2 ^ 53 ↔ units < (2 ^ 54 - 1) * 2 ^ power := by
  have bounds := nearestQuotient_full lower upper
  rcases nearestQuotient_bounds units (Nat.two_pow_pos (power + 1)) with ⟨low, high, even⟩
  generalize nearestQuotient units (2 ^ (power + 1)) = mantissa at bounds low high even ⊢
  rw [Nat.pow_succ] at low high even
  constructor
  · intro fits
    rcases Nat.lt_or_eq_of_le (Nat.le_pred_of_lt fits) with less | last
    · have most := Nat.mul_le_mul_right (2 ^ power * 2) (show mantissa + 1 ≤ 2 ^ 53 - 1 from less)
      rw [Nat.succ_mul] at most
      omega
    · -- the last full mantissa is odd, so a tie does not go to it
      rw [show mantissa = 2 ^ 53 - 1 from last] at high even
      omega
  · intro small
    refine Nat.lt_of_le_of_ne bounds.2 fun carry => ?_
    rw [carry] at low
    omega

/-- Numbers are too large from halfway between the largest magnitude and the next power of
two on. -/
theorem nearest?_eq_none_iff {top : Nat} (last : top + 1 = 2045) (units : Nat) :
    nearest? units 1 = none ↔ (2 ^ 54 - 1) * 2 ^ top ≤ units := by
  have upper := lt_shiftFor units
  have power {small large : Nat} (order : small ≤ large) : 2 ^ small ≤ 2 ^ large :=
    Nat.pow_le_pow_right (by decide) order
  -- Only where the last magnitudes are does the outcome depend on how the number is rounded.
  rcases Nat.lt_trichotomy (shiftFor units) (top + 1) with small | place | large
  · have room : units < 2 ^ 53 * 2 ^ top := Nat.lt_of_lt_of_le upper
      (Nat.mul_le_mul_left _ (power (Nat.le_of_lt_succ small)))
    refine iff_of_false (fun none => ?_) (Nat.not_le.mpr (Nat.lt_of_lt_of_le room ?_))
    · have small : units / 1 < 2 ^ (53 + top) := by rwa [Nat.div_one, Nat.pow_add]
      have found := isSome_nearest? (by omega) small
      rw [none] at found
      cases found
    · exact Nat.mul_le_mul_right _ (by decide)
  · have lower := le_of_shiftFor_ne_zero (show shiftFor units ≠ 0 by omega)
    rw [place] at upper lower
    have bounds := nearestQuotient_full lower upper
    have carry := nearestQuotient_lt_iff lower upper
    rw [nearest?_eq_nearest?_rounded lower upper, ← Nat.not_lt, ← carry]
    generalize nearestQuotient units (2 ^ (top + 1)) = mantissa at bounds ⊢
    rcases Nat.lt_or_eq_of_le bounds.2 with fits | equal
    · rw [nearest?_full bounds.1 fits, dif_pos (by omega)]
      exact iff_of_false nofun (not_not_intro fits)
    · rw [equal, two_pow_53_mul, nearest?_full (Nat.le_refl _) (by decide), dif_neg (by omega)]
      exact iff_of_true rfl (Nat.lt_irrefl _)
  · have lower := le_of_shiftFor_ne_zero (show shiftFor units ≠ 0 by omega)
    have least := Nat.mul_le_mul_left (2 ^ 52) (power (show top + 2 ≤ shiftFor units from large))
    refine iff_of_true ?_ ?_
    · refine nearest?_eq_none (show 2098 ≤ 52 + (top + 2) by omega) ?_
      rw [Nat.div_one, Nat.pow_add]
      exact Nat.le_trans least lower
    · rw [Nat.pow_add] at least
      omega

end Magnitude

namespace Double

/-- The double that a whole number is rounded to: the closest one, of two the one with an
even mantissa, and infinity for what rounds beyond the largest one. -/
inductive IsClosest (whole : Nat) : Double → Prop
  | finite {magnitude : Magnitude} (below : whole < 2 ^ 1024 - 2 ^ 970)
      (closest : ∀ other : Magnitude, magnitude.distance (whole * Magnitude.unitsPerOne) ≤
        other.distance (whole * Magnitude.unitsPerOne))
      (even : ∀ other : Magnitude, other ≠ magnitude →
        other.distance (whole * Magnitude.unitsPerOne) =
          magnitude.distance (whole * Magnitude.unitsPerOne) → magnitude.mantissa % 2 = 0) :
      IsClosest whole (.finite false magnitude)
  | infinite (beyond : 2 ^ 1024 - 2 ^ 970 ≤ whole) : IsClosest whole (.infinity false)

theorem ofInt_natCast (whole : Nat) :
    ofInt whole = ofMagnitude false (Magnitude.nearest? (whole * Magnitude.unitsPerOne) 1) := by
  rw [ofInt, ofRatio, Int.natAbs_natCast, decide_eq_false (by omega)]

theorem isClosest_ofInt (whole : Nat) : IsClosest whole (ofInt whole) := by
  have overflow : Magnitude.nearest? (whole * Magnitude.unitsPerOne) 1 = none ↔
      2 ^ 1024 - 2 ^ 970 ≤ whole := by
    have border {low total : Nat} (sum : 54 + low = total) (high : Nat) :
        (2 ^ 54 - 1) * 2 ^ (low + high) = (2 ^ total - 2 ^ low) * 2 ^ high := by
      rw [Nat.pow_add 2 low, ← Nat.mul_assoc, Nat.sub_mul, Nat.one_mul, ← Nat.pow_add 2 54, sum]
    rw [Magnitude.nearest?_eq_none_iff (show 970 + 1074 + 1 = 2045 from rfl),
      border (show 54 + 970 = 1024 from rfl)]
    exact Nat.mul_le_mul_right_iff Magnitude.unitsPerOne_pos
  rw [ofInt_natCast]
  cases found : Magnitude.nearest? (whole * Magnitude.unitsPerOne) 1 with
  | none => exact .infinite (overflow.mp found)
  | some rounded =>
      refine .finite ?_ (fun other => ?_) fun other => ?_
      · refine Nat.lt_of_not_le fun beyond => ?_
        cases found.symm.trans (overflow.mpr beyond)
      · exact (Magnitude.distance_le_of_nearest? found other).1
      · exact (Magnitude.distance_le_of_nearest? found other).2

end Double

end DocShell
