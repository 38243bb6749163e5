import DocShell.Number.Layout
import DocShell.Proofs.Number.Rounding

namespace DocShell

/-! # Decimals and the doubles they denote

The double of a decimal does not depend on how its power of ten is shared out
between significand and exponent. Therefore the shortest decimal of a magnitude,
whose zeros at the end are dropped, still reads back as that magnitude. -/

namespace Double

/-- A quotient with more than four hundred digits is beyond every double. -/
theorem ofRatio_eq_infinity (negative : Bool) {numerator denominator digits : Nat}
    (beyond : 400 ≤ digits) (large : 10 ^ digits ≤ numerator / denominator) :
    ofRatio negative numerator denominator = .infinity negative := by
  have positive : 0 < denominator := by
    rcases Nat.eq_zero_or_pos denominator with zero | positive
    · rw [zero, Nat.div_zero] at large
      exact absurd large (Nat.not_le.mpr (Nat.pow_pos (by decide)))
    · exact positive
  have units : 2 ^ (3 * digits + 1074) ≤ numerator * Magnitude.unitsPerOne / denominator := by
    refine (Nat.le_div_iff_mul_le positive).mpr ?_
    have scaled := (Nat.le_div_iff_mul_le positive).mp large
    calc 2 ^ (3 * digits + 1074) * denominator
        = (2 ^ 3) ^ digits * denominator * Magnitude.unitsPerOne := by
          rw [Nat.pow_add, Nat.pow_mul, Nat.mul_right_comm, Magnitude.unitsPerOne]
      _ ≤ 10 ^ digits * denominator * Magnitude.unitsPerOne :=
          Nat.mul_le_mul_right _ (Nat.mul_le_mul_right _ (Nat.pow_le_pow_left (by decide) _))
      _ ≤ numerator * Magnitude.unitsPerOne := Nat.mul_le_mul_right _ scaled
  rw [ofRatio, Magnitude.nearest?_eq_none (by omega) units, ofMagnitude]

theorem ofRatio_mul_mul (negative : Bool) (numerator denominator : Nat) {factor : Nat}
    (positive : 0 < factor) :
    ofRatio negative (numerator * factor) (denominator * factor) =
      ofRatio negative numerator denominator := by
  rw [ofRatio, Nat.mul_right_comm, Magnitude.nearest?_mul_mul _ _ positive, ← ofRatio]

theorem ofRatio_units (negative : Bool) (magnitude : Magnitude) {denominator : Nat}
    (positive : 0 < denominator) :
    ofRatio negative (magnitude.units * denominator) (Magnitude.unitsPerOne * denominator) =
      .finite negative magnitude := by
  rw [ofRatio, Nat.mul_assoc, Nat.mul_comm denominator,
    Magnitude.nearest?_units _ (Nat.mul_pos Magnitude.unitsPerOne_pos positive), ofMagnitude]

theorem pow_sub_le_mul_pow_div {significand gained lost : Nat} (positive : 0 < significand)
    (fewer : lost ≤ gained) : 10 ^ (gained - lost) ≤ significand * 10 ^ gained / 10 ^ lost := by
  refine (Nat.le_div_iff_mul_le (Nat.pow_pos (by decide))).mpr ?_
  rw [← Nat.pow_add, Nat.sub_add_cancel fewer]
  exact Nat.le_mul_of_pos_left _ positive

/-- Powers of ten may move from the significand to the exponent. -/
theorem ofDecimal_mul_pow (negative : Bool) (significand power : Nat) (exponent : Int) :
    ofDecimal negative (significand * 10 ^ power) exponent =
      ofDecimal negative significand (exponent + power) := by
  rcases Nat.eq_zero_or_pos significand with rfl | positive
  · simp [ofDecimal]
  have nonzero : significand ≠ 0 := Nat.ne_of_gt positive
  have shifted : significand * 10 ^ power ≠ 0 :=
    Nat.mul_ne_zero nonzero (Nat.ne_of_gt (Nat.pow_pos (by decide)))
  have digits : exponent + ((Text.ofNat (significand * 10 ^ power)).length : Int) =
      exponent + power + (Text.ofNat significand).length := by
    rw [Text.length_ofNat_mul_pow positive]
    omega
  simp only [ofDecimal, nonzero, shifted, if_false, digits]
  by_cases high : 400 < exponent
  · rw [if_pos high, if_pos (by omega)]
  rw [if_neg high]
  by_cases small : exponent + power + (Text.ofNat significand).length < -400
  · rw [if_pos small, if_neg (by omega), if_pos small]
  rw [if_neg small]
  -- The exponent is split into its two halves, one of which is zero.
  have halves : ((exponent + power).toNat : Int) - (-(exponent + power)).toNat =
      exponent.toNat - (-exponent).toNat + power := by omega
  by_cases beyond : 400 < exponent + power
  · rw [if_pos beyond]
    refine ofRatio_eq_infinity negative
      (show 400 ≤ power + exponent.toNat - (-exponent).toNat by omega) ?_
    rw [Nat.mul_assoc, ← Nat.pow_add]
    exact pow_sub_le_mul_pow_div positive (by omega)
  rw [if_neg beyond, if_neg small]
  have factor : 0 < 10 ^ ((-exponent).toNat - (-(exponent + power)).toNat) :=
    Nat.pow_pos (by decide)
  rw [← ofRatio_mul_mul negative _ (10 ^ (-(exponent + power)).toNat) factor,
    Nat.mul_assoc, Nat.mul_assoc, ← Nat.pow_add, ← Nat.pow_add, ← Nat.pow_add,
    show (exponent + power).toNat + ((-exponent).toNat - (-(exponent + power)).toNat) =
      power + exponent.toNat by omega,
    show (-(exponent + power)).toNat + ((-exponent).toNat - (-(exponent + power)).toNat) =
      (-exponent).toNat by omega]

end Double

namespace Decimal

def toDouble (negative : Bool) (decimal : Decimal) : Double :=
  Double.ofDecimal negative (Text.natOfDigits decimal.digits)
    (decimal.point - decimal.digits.length)

/-- Digits as a decimal keeps them: no zero in front, save that of zero itself. -/
structure Sound (decimal : Decimal) : Prop where
  nonempty : decimal.digits ≠ []
  allDigits : ∀ digit ∈ decimal.digits, digit.isDigit = true
  leading : decimal.digits.head? = some '0' → decimal = ⟨['0'], 1⟩

theorem exists_digits_ofScaled (significand : Nat) (exponent : Int) :
    ∃ zeros, Text.ofNat significand =
      (ofScaled significand exponent).digits ++ List.replicate zeros '0' := by
  generalize equal : (Text.ofNat significand).reverse = reversed
  have dropped : ∀ digit ∈ reversed.takeWhile (· = '0'), digit = '0' := fun digit member => by
    simpa using (List.all_eq_true.mp List.all_takeWhile) digit member
  refine ⟨(reversed.takeWhile (· = '0')).length, ?_⟩
  have parts := List.takeWhile_append_dropWhile (p := (· = '0')) (l := reversed)
  rw [List.eq_replicate_of_mem dropped] at parts
  simp only [ofScaled, equal]
  rw [← List.reverse_replicate, ← List.reverse_append, parts, ← equal, List.reverse_reverse]

/-- The zeros that are dropped do not change the double. -/
theorem toDouble_ofScaled (negative : Bool) (significand : Nat) (exponent : Int) :
    (ofScaled significand exponent).toDouble negative =
      Double.ofDecimal negative significand exponent := by
  rcases exists_digits_ofScaled significand exponent with ⟨zeros, digits⟩
  have number := Text.natOfDigits_ofNat significand
  rw [digits, Text.natOfDigits_append_zeros] at number
  have point : (ofScaled significand exponent).point - (ofScaled significand exponent).digits.length =
      exponent + zeros := by
    have length := congrArg List.length digits
    rw [List.length_append, List.length_replicate] at length
    simp only [ofScaled] at length ⊢
    omega
  rw [toDouble, point, ← Double.ofDecimal_mul_pow, number]

theorem sound_ofScaled {significand : Nat} (positive : 0 < significand) (exponent : Int) :
    (ofScaled significand exponent).Sound := by
  rcases exists_digits_ofScaled significand exponent with ⟨zeros, digits⟩
  generalize ofScaled significand exponent = decimal at digits
  have nonempty : decimal.digits ≠ [] := by
    intro empty
    have number := Text.natOfDigits_ofNat significand
    rw [digits, Text.natOfDigits_append_zeros, empty] at number
    simp only [Text.natOfDigits, Nat.ofDigitChars_nil, Nat.zero_mul] at number
    omega
  refine ⟨nonempty, ?_, ?_⟩
  · intro digit member
    have member : digit ∈ Text.ofNat significand := by
      rw [digits]
      exact List.mem_append_left _ member
    exact Text.isDigit_of_mem_ofNat member
  · intro leading
    have unpadded := Text.head?_ofNat_ne_zero positive
    rw [digits, List.head?_append, leading] at unpadded
    exact absurd rfl unpadded

end Decimal

namespace Magnitude

theorem nearerNeighbour_eq (tie : Tie) (numerator denominator : Nat) :
    nearerNeighbour tie numerator denominator = numerator / denominator ∨
      nearerNeighbour tie numerator denominator = numerator / denominator + 1 := by
  simp only [nearerNeighbour]
  repeat' split
  all_goals simp

theorem fits_of_fittingNeighbour? {lowFits highFits : Bool} {low nearer chosen : Nat}
    (neighbour : nearer = low ∨ nearer = low + 1)
    (found : fittingNeighbour? lowFits highFits low nearer = some chosen) :
    chosen = low ∧ lowFits = true ∨ chosen = low + 1 ∧ highFits = true := by
  cases lowFits <;> cases highFits <;> simp [fittingNeighbour?] at found ⊢ <;> omega

/-- A decimal that is found with some count of digits reads back as the magnitude. -/
theorem readsBack_of_withDigits? {tie : Tie} {magnitude : Magnitude} {count : Nat}
    {decimal : Decimal} (found : magnitude.withDigits? tie count = some decimal) :
    ∃ significand exponent, decimal = .ofScaled significand exponent ∧
      magnitude.readsBack significand exponent = true := by
  rcases Option.map_eq_some_iff.mp found with ⟨chosen, fitting, rfl⟩
  refine ⟨chosen, _, rfl, ?_⟩
  rcases fits_of_fittingNeighbour? (nearerNeighbour_eq tie _ _) fitting with
    ⟨rfl, fits⟩ | ⟨rfl, fits⟩
  · exact fits
  · exact fits

private theorem two_pow_le_five_pow {small large : Nat} (fits : small ≤ 2 * large) :
    2 ^ small ≤ 5 ^ large := by
  calc 2 ^ small ≤ 2 ^ (2 * large) := Nat.pow_le_pow_right (by decide) fits
    _ = (2 ^ 2) ^ large := Nat.pow_mul 2 2 large
    _ ≤ 5 ^ large := Nat.pow_le_pow_left (by decide) _

/-- All digits of a magnitude, written down, read back as it. The bounds on the
number of bits behind the point keep the decimal within the exponents that are
looked at. -/
theorem readsBack_allDigits {magnitude : Magnitude} (positive : 0 < magnitude.units) {bits : Nat}
    (unit : unitsPerOne = 2 ^ bits) (low : 401 < bits) (high : bits ≤ 1203) :
    magnitude.readsBack (magnitude.units * 5 ^ bits) (-bits) = true := by
  have significant : 0 < magnitude.units * 5 ^ bits :=
    Nat.mul_pos positive (Nat.pow_pos (by decide))
  have digits : bits - 401 < (Text.ofNat (magnitude.units * 5 ^ bits)).length := by
    refine Nat.lt_of_not_le fun short => ?_
    have small := (Text.length_ofNat_le_iff (by omega)).mp short
    have large : 10 ^ (bits - 401) ≤ magnitude.units * 5 ^ bits := by
      calc 10 ^ (bits - 401) = 5 ^ (bits - 401) * 2 ^ (bits - 401) := by
            rw [← Nat.mul_pow]
        _ ≤ 5 ^ (bits - 401) * 5 ^ 401 :=
            Nat.mul_le_mul_left _ (two_pow_le_five_pow (by omega))
        _ = 5 ^ bits := by rw [← Nat.pow_add, Nat.sub_add_cancel (Nat.le_of_lt low)]
        _ ≤ magnitude.units * 5 ^ bits := Nat.le_mul_of_pos_left _ positive
    omega
  have ratio := Double.ofRatio_units false magnitude (Nat.pow_pos (a := 5) (n := bits) (by decide))
  rw [unit, ← Nat.mul_pow] at ratio
  rw [readsBack, decide_eq_true_eq, Double.ofDecimal, if_neg (Nat.ne_of_gt significant),
    if_neg (by omega), if_neg (by omega)]
  have exponents : (-(bits : Int)).toNat = 0 ∧ (- -(bits : Int)).toNat = bits := by omega
  rw [exponents.1, exponents.2, Nat.pow_zero, Nat.mul_one, ratio]

theorem positive_of_readsBack {magnitude : Magnitude} (positive : 0 < magnitude.units)
    {significand : Nat} {exponent : Int}
    (fits : magnitude.readsBack significand exponent = true) : 0 < significand := by
  refine Nat.pos_of_ne_zero fun zero => ?_
  rw [readsBack, decide_eq_true_eq, Double.ofDecimal, if_pos zero] at fits
  cases fits
  exact absurd positive (by decide)

/-- The shortest decimal of a magnitude that is not zero comes from a decimal that
reads back as it. -/
theorem exists_ofScaled_shortest (tie : Tie) {magnitude : Magnitude}
    (positive : 0 < magnitude.units) :
    ∃ significand exponent, magnitude.shortest tie = .ofScaled significand exponent ∧
      0 < significand ∧ magnitude.readsBack significand exponent = true := by
  have found : ∃ significand exponent, magnitude.shortest tie = .ofScaled significand exponent ∧
      magnitude.readsBack significand exponent = true := by
    rw [shortest, if_neg (Nat.ne_of_gt positive)]
    cases search : (List.range' 1 17).findSome? (magnitude.withDigits? tie) with
    | none => exact ⟨_, _, rfl, readsBack_allDigits positive rfl (by decide) (by decide)⟩
    | some decimal =>
        rcases List.exists_of_findSome?_eq_some search with ⟨count, _, hit⟩
        exact readsBack_of_withDigits? hit
  rcases found with ⟨significand, exponent, equal, fits⟩
  exact ⟨significand, exponent, equal, positive_of_readsBack positive fits, fits⟩

/-- The shortest decimal of a magnitude reads back as that magnitude. -/
theorem toDouble_shortest (tie : Tie) (magnitude : Magnitude) :
    (magnitude.shortest tie).toDouble false = .finite false magnitude := by
  rcases Nat.eq_zero_or_pos magnitude.units with zero | positive
  · rw [shortest, if_pos zero, eq_zero_of_units zero]
    rfl
  · rcases exists_ofScaled_shortest tie positive with ⟨significand, exponent, equal, _, fits⟩
    rw [equal, Decimal.toDouble_ofScaled]
    exact of_decide_eq_true fits

theorem sound_shortest (tie : Tie) (magnitude : Magnitude) : (magnitude.shortest tie).Sound := by
  rcases Nat.eq_zero_or_pos magnitude.units with zero | positive
  · rw [shortest, if_pos zero]
    exact ⟨by simp, by simp, fun _ => rfl⟩
  · rcases exists_ofScaled_shortest tie positive with ⟨significand, exponent, equal, nonzero, _⟩
    rw [equal]
    exact Decimal.sound_ofScaled nonzero exponent

end Magnitude

end DocShell
