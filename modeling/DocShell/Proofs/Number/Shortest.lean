import DocShell.Proofs.Number.Decimal
import DocShell.Proofs.Number.Nearest

namespace DocShell

/-! # The search for the shortest decimal

Seventeen digits are enough: the decimals with that many digits lie closer together than
the magnitudes, so that one of the two around a magnitude is read back as it. The shortest
decimal therefore has no more digits than that, and its point is near. -/

namespace Magnitude

variable {magnitude : Magnitude}

/-- The least magnitude is above the powers of ten that are looked at. -/
theorem scaled_pos (positive : 0 < magnitude.units) :
    0 < magnitude.units * 10 ^ 324 / unitsPerOne := by
  refine Nat.div_pos ?_ unitsPerOne_pos
  calc unitsPerOne ≤ 10 ^ 324 := by decide +kernel
    _ ≤ magnitude.units * 10 ^ 324 := Nat.le_mul_of_pos_left _ positive

/-- A number with a given count of digits, moved to a grid with another count. The powers
of ten go to whichever side they are positive on. -/
theorem pow_mul_pow (unit : Nat) {length count bias : Nat} {first second : Nat}
    (same : first + length = second + count) :
    10 ^ first * (unit * 10 ^ ((length : Int) - bias - count).toNat) * 10 ^ bias =
      10 ^ second * unit * 10 ^ (-((length : Int) - bias - count)).toNat := by
  generalize up : ((length : Int) - bias - count).toNat = high
  generalize down : (-((length : Int) - bias - count)).toNat = low
  have exponents : first + high + bias = second + low := by omega
  calc 10 ^ first * (unit * 10 ^ high) * 10 ^ bias
      = 10 ^ (first + high + bias) * unit := by
        rw [Nat.pow_add, Nat.pow_add]
        ac_rfl
    _ = 10 ^ second * unit * 10 ^ low := by
        rw [exponents, Nat.pow_add]
        ac_rfl

theorem pow_le_moved {units unit length count bias : Nat} (some : 0 < count) (nonempty : 0 < length)
    (above : 10 ^ (length - 1) * unit ≤ units * 10 ^ bias) :
    10 ^ (count - 1) * (unit * 10 ^ ((length : Int) - bias - count).toNat) ≤
      units * 10 ^ (-((length : Int) - bias - count)).toNat := by
  have same : count - 1 + length = length - 1 + count := by omega
  refine Nat.le_of_mul_le_mul_right ?_ (Nat.pow_pos (a := 10) (n := bias) (by decide))
  rw [pow_mul_pow unit same, Nat.mul_right_comm units]
  exact Nat.mul_le_mul_right _ above

theorem moved_lt_pow {units unit length bias : Nat} (count : Nat)
    (below : units * 10 ^ bias < 10 ^ length * unit) :
    units * 10 ^ (-((length : Int) - bias - count)).toNat <
      10 ^ count * (unit * 10 ^ ((length : Int) - bias - count).toNat) := by
  refine Nat.lt_of_mul_lt_mul_right (a := 10 ^ bias) ?_
  rw [pow_mul_pow unit (Nat.add_comm count length), Nat.mul_right_comm units]
  exact Nat.mul_lt_mul_of_pos_right below (Nat.pow_pos (by decide))

/-- On the grid with some count of digits, a magnitude has just that many. -/
theorem grid_bounds (positive : 0 < magnitude.units) (count : Nat) (some : 0 < count) :
    10 ^ (count - 1) * (unitsPerOne * 10 ^ (magnitude.place - count).toNat) ≤
        magnitude.units * 10 ^ (-(magnitude.place - count)).toNat ∧
      magnitude.units * 10 ^ (-(magnitude.place - count)).toNat <
        10 ^ count * (unitsPerOne * 10 ^ (magnitude.place - count).toNat) := by
  have first := Text.pow_length_le_ofNat (scaled_pos positive)
  have last := Text.lt_pow_length_ofNat (magnitude.units * 10 ^ 324 / unitsPerOne)
  have nonempty := List.length_pos_iff.mpr
    (Text.ofNat_ne_nil (magnitude.units * 10 ^ 324 / unitsPerOne))
  rw [Nat.le_div_iff_mul_le unitsPerOne_pos] at first
  rw [Nat.div_lt_iff_lt_mul unitsPerOne_pos] at last
  exact ⟨pow_le_moved some nonempty first, moved_lt_pow count last⟩

theorem place_bounds (magnitude : Magnitude) : -323 ≤ magnitude.place ∧ magnitude.place ≤ 309 := by
  have nonempty := List.length_pos_iff.mpr
    (Text.ofNat_ne_nil (magnitude.units * 10 ^ 324 / unitsPerOne))
  have short : (Text.ofNat (magnitude.units * 10 ^ 324 / unitsPerOne)).length ≤ 633 := by
    refine (Text.length_ofNat_le_iff (by decide)).mpr ?_
    rw [Nat.div_lt_iff_lt_mul unitsPerOne_pos]
    have units : magnitude.units < 2 ^ 53 * 2 ^ 2045 :=
      Nat.lt_of_lt_of_le magnitude.units_lt
        (Nat.mul_le_mul_left _ (Nat.pow_le_pow_right (by decide) magnitude.shift_le))
    calc magnitude.units * 10 ^ 324
        < 2 ^ 53 * 2 ^ 2045 * 10 ^ 324 :=
          Nat.mul_lt_mul_of_pos_right units (Nat.pow_pos (by decide))
      _ ≤ 10 ^ 633 * unitsPerOne := by decide +kernel
  rw [place]
  omega

/-! ## Seventeen digits -/

/-- A decimal in the range of exponents is read back as the magnitude nearest to it. -/
theorem readsBack_of_nearest? {significand : Nat} {exponent : Int} (positive : 0 < significand)
    (least : -400 ≤ exponent) (greatest : exponent ≤ 400)
    (nearest : nearest? (significand * (unitsPerOne * 10 ^ exponent.toNat)) (10 ^ (-exponent).toNat) =
      some magnitude) : magnitude.readsBack significand exponent = true := by
  rw [readsBack, decide_eq_true_eq, Double.ofDecimal, if_neg (Nat.ne_of_gt positive),
    if_neg (by omega), if_neg (by omega), Double.ofRatio, Nat.mul_assoc, Nat.mul_comm (10 ^ _),
    nearest, Double.ofMagnitude]

/-- A step of the grid with seventeen digits is smaller than one in the last place. -/
theorem step_lt_place {mantissa step place : Nat} (mantissa_lt : mantissa < 2 ^ 53)
    (positive : 0 < step) (grid : 10 ^ 16 * step ≤ mantissa * place) : step < place := by
  have bound := Nat.mul_le_mul_right place (show mantissa ≤ 9007199254740991 by omega)
  omega

/-- Where the places below are finer, the step is smaller than half of one. -/
theorem step_lt_half_place {step place : Nat} (positive : 0 < step)
    (grid : 10 ^ 16 * step ≤ 2 ^ 52 * place) : 2 * step < place := by
  omega

/-- Of two neighbours on a fine grid around a magnitude, one goes to it. -/
theorem nearest?_neighbour {low step scale : Nat} (positive : 0 < step)
    (below : low * step ≤ magnitude.units * scale)
    (above : magnitude.units * scale < (low + 1) * step)
    (fine : 10 ^ 16 * step ≤ magnitude.units * scale) :
    nearest? (low * step) scale = some magnitude ∨
      nearest? ((low + 1) * step) scale = some magnitude := by
  have place : magnitude.units * scale = magnitude.mantissa * (scale * 2 ^ magnitude.shift) := by
    rw [units, Nat.mul_assoc, Nat.mul_comm (2 ^ magnitude.shift)]
  have next : (low + 1) * step = low * step + step := by rw [Nat.add_mul, Nat.one_mul]
  have smaller := step_lt_place magnitude.mantissa_lt positive (place ▸ fine)
  by_cases near : 2 * ((low + 1) * step) <
      2 * (magnitude.units * scale) + scale * 2 ^ magnitude.shift
  · exact .inr (nearest?_eq (by omega) near (.inl (Nat.le_of_lt above)))
  · -- then the lower one is near, and not at the end of the finer places
    refine .inl (nearest?_eq (by omega) (by omega) (.inr ?_))
    refine magnitude.full.imp_right fun large => Nat.lt_of_le_of_ne large fun least => ?_
    rw [place, ← least] at fine
    have half := step_lt_half_place positive fine
    omega

/-- Of the two decimals with seventeen digits around a magnitude, one is read back as it. -/
theorem isSome_withDigits? (tie : Tie) (positive : 0 < magnitude.units) :
    (magnitude.withDigits? tie 17).isSome = true := by
  have grid := (grid_bounds positive 17 (by decide)).1
  have exponents : -400 ≤ magnitude.place - (17 : Nat) ∧ magnitude.place - (17 : Nat) ≤ 400 := by
    have bounds := magnitude.place_bounds
    omega
  have step : 0 < unitsPerOne * 10 ^ (magnitude.place - (17 : Nat)).toNat :=
    Nat.mul_pos unitsPerOne_pos (Nat.pow_pos (by decide))
  have large := (Nat.le_div_iff_mul_le step).mpr grid
  have below := Nat.div_mul_le_self (magnitude.units * 10 ^ (-(magnitude.place - (17 : Nat))).toNat)
    (unitsPerOne * 10 ^ (magnitude.place - (17 : Nat)).toNat)
  have above := (Nat.div_lt_iff_lt_mul step).mp (Nat.lt_succ_self
    (magnitude.units * 10 ^ (-(magnitude.place - (17 : Nat))).toNat /
      (unitsPerOne * 10 ^ (magnitude.place - (17 : Nat)).toNat)))
  have low_pos := Nat.lt_of_lt_of_le (Nat.pow_pos (by decide)) large
  have near := nearest?_neighbour step below above grid
  rw [withDigits?, Option.isSome_map]
  generalize magnitude.units * 10 ^ (-(magnitude.place - (17 : Nat))).toNat /
    (unitsPerOne * 10 ^ (magnitude.place - (17 : Nat)).toNat) = low at low_pos near ⊢
  rcases near with near | near
  · rw [readsBack_of_nearest? low_pos exponents.1 exponents.2 near]
    cases magnitude.readsBack (low + 1) (magnitude.place - (17 : Nat)) <;> rfl
  · rw [readsBack_of_nearest? (Nat.succ_pos low) exponents.1 exponents.2 near]
    cases magnitude.readsBack low (magnitude.place - (17 : Nat)) <;> rfl

/-! ## The size of the shortest decimal -/

/-- What is found on a grid has no more digits than the grid, save for a power of ten. -/
theorem exists_scaled_of_withDigits? {tie : Tie} (positive : 0 < magnitude.units) {count : Nat}
    (some : 0 < count) {decimal : Decimal} (found : magnitude.withDigits? tie count = .some decimal) :
    ∃ significand : Nat, significand ≤ 10 ^ count ∧
      decimal = .ofScaled significand (magnitude.place - count) := by
  rcases Option.map_eq_some_iff.mp found with ⟨chosen, fitting, rfl⟩
  refine ⟨chosen, ?_, rfl⟩
  have step : 0 < unitsPerOne * 10 ^ (magnitude.place - count).toNat :=
    Nat.mul_pos unitsPerOne_pos (Nat.pow_pos (by decide))
  have low := (Nat.div_lt_iff_lt_mul step).mpr (grid_bounds positive _ some).2
  rcases fits_of_fittingNeighbour? (nearerNeighbour_eq tie _ _) fitting with
    ⟨rfl, _⟩ | ⟨rfl, _⟩
  · exact Nat.le_of_lt low
  · exact low

theorem exists_scaled_shortest (tie : Tie) (positive : 0 < magnitude.units) :
    ∃ count significand : Nat, count ≤ 17 ∧ significand ≤ 10 ^ count ∧
      magnitude.shortest tie = .ofScaled significand (magnitude.place - count) := by
  rw [shortest, if_neg (Nat.ne_of_gt positive)]
  cases search : (List.range' 1 17).findSome? (magnitude.withDigits? tie) with
  | none =>
      have missed := List.findSome?_eq_none_iff.mp search 17 (by decide)
      have found := isSome_withDigits? tie positive
      rw [missed] at found
      cases found
  | some decimal =>
      rcases List.exists_of_findSome?_eq_some search with ⟨count, member, hit⟩
      have bounds := List.mem_range'_1.mp member
      rcases exists_scaled_of_withDigits? positive bounds.1 hit with ⟨significand, size, rfl⟩
      exact ⟨count, significand, by omega, size, rfl⟩

/-- The shortest decimal has at most seventeen digits, and its point is not far away. -/
theorem shortest_bounds (tie : Tie) (magnitude : Magnitude) :
    Text.natOfDigits (magnitude.shortest tie).digits ≤ 10 ^ 17 ∧
      (magnitude.shortest tie).point.natAbs ≤ 400 := by
  rcases Nat.eq_zero_or_pos magnitude.units with zero | positive
  · rw [shortest, if_pos zero]
    decide
  rcases exists_scaled_shortest tie positive with ⟨count, significand, few, size, equal⟩
  have bound := Nat.le_trans size (Nat.pow_le_pow_right (by decide) few)
  rcases Decimal.exists_digits_ofScaled significand (magnitude.place - count) with ⟨zeros, digits⟩
  rw [equal]
  constructor
  · have number := Text.natOfDigits_ofNat significand
    rw [digits, Text.natOfDigits_append_zeros] at number
    exact Nat.le_trans (Nat.le_mul_of_pos_right _ (Nat.pow_pos (by decide))) (number ▸ bound)
  · have short : (Text.ofNat significand).length ≤ 18 := by
      refine (Text.length_ofNat_le_iff (by decide)).mpr (Nat.lt_of_le_of_lt bound ?_)
      decide
    have place := magnitude.place_bounds
    change ((Text.ofNat significand).length + (magnitude.place - count) : Int).natAbs ≤ 400
    omega

end Magnitude

end DocShell
