import DocShell.Proofs.Number.Closest
import DocShell.Proofs.Number.Whole

namespace DocShell

/-! # The text of whole numbers

On a grid of whole numbers only the number itself is read back as it. A whole number of up to
fifteen digits therefore has no decimal shorter than its own digits, save for zeros at their
end, and is written as an integer is. -/

namespace Decimal

theorem ofScaled_mul_ten {significand : Nat} (positive : 0 < significand) (exponent : Int) :
    ofScaled (significand * 10) exponent = ofScaled significand (exponent + 1) := by
  rw [ofScaled, ofScaled, Text.ofNat_mul_ten positive]
  simp only [List.reverse_append, List.reverse_singleton, List.singleton_append,
    List.length_append, List.length_singleton, Decimal.mk.injEq]
  refine ⟨?_, by omega⟩
  rw [List.dropWhile_cons_of_pos (by decide)]

/-- Zeros at the end may be counted as digits or as powers of ten. -/
theorem ofScaled_mul_pow {significand : Nat} (positive : 0 < significand) (power : Nat)
    (exponent : Int) :
    ofScaled (significand * 10 ^ power) exponent = ofScaled significand (exponent + power) := by
  induction power generalizing exponent with
  | zero => simp
  | succ power induction =>
      have larger : 0 < significand * 10 ^ power := Nat.mul_pos positive (Nat.pow_pos (by decide))
      rw [Nat.pow_succ, ← Nat.mul_assoc, ofScaled_mul_ten larger, induction]
      congr 1
      omega

/-- A decimal that is a whole number, written out, has the digits of that number. -/
theorem positional_ofScaled (whole : Nat) :
    (ofScaled whole 0).positional [] = Text.ofNat whole := by
  rcases exists_digits_ofScaled whole 0 with ⟨zeros, digits⟩
  have point : (ofScaled whole 0).point = (Text.ofNat whole).length := Int.add_zero _
  have nonempty := List.length_pos_iff.mpr (Text.ofNat_ne_nil whole)
  have lengths := congrArg List.length digits
  rw [List.length_append, List.length_replicate] at lengths
  have missing : ((ofScaled whole 0).point - (ofScaled whole 0).digits.length).toNat = zeros := by
    omega
  rw [positional, if_neg (by omega), if_neg (by omega), missing, List.append_nil, ← digits]

end Decimal

namespace Magnitude

variable {magnitude : Magnitude} {whole : Nat}

/-- Among whole numbers in the exact range, only the number itself is read back as it. -/
theorem readsBack_whole (units : magnitude.units = whole * unitsPerOne) {significand power : Nat}
    (exact : significand * 10 ^ power ≤ Double.exactLimit) :
    magnitude.readsBack significand power = decide (significand * 10 ^ power = whole) := by
  have moved := Double.ofDecimal_mul_pow false significand power 0
  have within : ((significand * 10 ^ power : Nat) : Int).natAbs ≤ Double.exactLimit := exact
  rcases Double.exists_ofInt_eq within with ⟨other, same, equal⟩
  rw [Int.zero_add, Double.ofDecimal_zero, equal, decide_eq_false (by omega)] at moved
  rw [readsBack, ← moved]
  refine decide_eq_decide.mpr ?_
  rw [Double.finite.injEq, and_iff_right rfl]
  constructor
  · rintro rfl
    rw [units] at same
    exact (Nat.eq_of_mul_eq_mul_right unitsPerOne_pos same).symm
  · intro number
    refine ext_units ?_
    rw [same, units, ← number]
    rfl

theorem place_whole (positive : 0 < whole) (units : magnitude.units = whole * unitsPerOne) :
    magnitude.place = (Text.ofNat whole).length := by
  rw [place, units, Nat.mul_right_comm, Nat.mul_div_cancel _ unitsPerOne_pos,
    Text.length_ofNat_mul_pow positive]
  omega

theorem quotient_whole (units : magnitude.units = whole * unitsPerOne) (power : Nat) :
    magnitude.units * 10 ^ (-(power : Int)).toNat / (unitsPerOne * 10 ^ (power : Int).toNat) =
      whole / 10 ^ power := by
  have nothing : (-(power : Int)).toNat = 0 := by omega
  rw [units, Int.toNat_natCast, nothing, Nat.pow_zero, Nat.mul_one, Nat.mul_comm whole,
    Nat.mul_div_mul_left _ _ unitsPerOne_pos]

/-- The next number on a grid has no more digits than the number itself, or is the power of ten
above it. -/
theorem nextOnGrid_le {count : Nat} (coarse : count ≤ (Text.ofNat whole).length) :
    (whole / 10 ^ ((Text.ofNat whole).length - count) + 1) *
      10 ^ ((Text.ofNat whole).length - count) ≤ 10 ^ (Text.ofNat whole).length := by
  have upper := Text.lt_pow_length_ofNat whole
  generalize gap : (Text.ofNat whole).length - count = power
  have split : 10 ^ (Text.ofNat whole).length = 10 ^ count * 10 ^ power := by
    rw [← Nat.pow_add, ← gap, Nat.add_sub_cancel' coarse]
  rw [split] at upper ⊢
  exact Nat.mul_le_mul_right _ ((Nat.div_lt_iff_lt_mul (Nat.pow_pos (by decide))).mpr upper)

variable (positive : 0 < whole) (small : whole < 10 ^ 15)
  (units : magnitude.units = whole * unitsPerOne)

include positive small units

/-- A grid that is no finer than the whole numbers has the number itself or nothing. -/
theorem withDigits?_whole (tie : Tie) {count : Nat}
    (coarse : count ≤ (Text.ofNat whole).length) :
    magnitude.withDigits? tie count =
      if whole % 10 ^ ((Text.ofNat whole).length - count) = 0 then some (.ofScaled whole 0)
      else none := by
  have length := (Text.length_ofNat_le_iff (by decide)).mpr small
  have exponent : magnitude.place - count = ((Text.ofNat whole).length - count : Nat) := by
    rw [place_whole positive units]
    omega
  have next := nextOnGrid_le coarse
  generalize (Text.ofNat whole).length - count = power at exponent next
  have below := Nat.div_mul_le_self whole (10 ^ power)
  have above : whole < (whole / 10 ^ power + 1) * 10 ^ power :=
    (Nat.div_lt_iff_lt_mul (Nat.pow_pos (by decide))).mp (Nat.lt_succ_self _)
  -- both neighbours on the grid are whole numbers in the exact range
  have limit : 10 ^ (Text.ofNat whole).length ≤ Double.exactLimit :=
    Nat.le_trans (Nat.pow_le_pow_right (by decide) length) (by decide)
  have highFits := readsBack_whole units (Nat.le_trans next limit)
  have lowFits := readsBack_whole units
    (Nat.le_trans below (Nat.le_trans (Nat.le_of_lt above) (Nat.le_trans next limit)))
  rw [decide_eq_false (Nat.ne_of_gt above)] at highFits
  rw [withDigits?, exponent]
  simp only [quotient_whole units, lowFits, highFits]
  have parts := Nat.div_add_mod whole (10 ^ power)
  rw [Nat.mul_comm] at parts
  by_cases multiple : whole % 10 ^ power = 0
  · have same : whole / 10 ^ power * 10 ^ power = whole := by omega
    have quotient : 0 < whole / 10 ^ power := by
      refine Nat.pos_of_ne_zero fun zero => ?_
      rw [zero] at same
      omega
    rw [if_pos multiple, decide_eq_true same]
    have scaled := Decimal.ofScaled_mul_pow quotient power 0
    rw [same, Int.zero_add] at scaled
    rw [scaled]
    rfl
  · rw [if_neg multiple, decide_eq_false (by omega)]
    rfl

/-- The shortest decimal of a whole number is the number itself. -/
theorem shortest_whole (tie : Tie) : magnitude.shortest tie = .ofScaled whole 0 := by
  have length := (Text.length_ofNat_le_iff (by decide)).mpr small
  have nonempty := List.length_pos_iff.mpr (Text.ofNat_ne_nil whole)
  have nonzero : magnitude.units ≠ 0 := by
    rw [units]
    exact Nat.ne_of_gt (Nat.mul_pos positive unitsPerOne_pos)
  -- the search ends on the grid of whole numbers at the latest
  have grids : List.range' 1 17 = List.range' 1 (Text.ofNat whole).length ++
      List.range' (1 + (Text.ofNat whole).length) (17 - (Text.ofNat whole).length) := by
    rw [List.range'_append_1]
    congr 1
    omega
  rw [shortest, if_neg nonzero, grids, List.findSome?_append]
  cases search : (List.range' 1 (Text.ofNat whole).length).findSome?
      (magnitude.withDigits? tie) with
  | none =>
      have missed := List.findSome?_eq_none_iff.mp search (Text.ofNat whole).length
        (List.mem_range'_1.mpr (by omega))
      rw [withDigits?_whole positive small units tie (Nat.le_refl _), Nat.sub_self, Nat.pow_zero,
        Nat.mod_one, if_pos rfl] at missed
      cases missed
  | some decimal =>
      rcases List.exists_of_findSome?_eq_some search with ⟨count, member, hit⟩
      have bounds := List.mem_range'_1.mp member
      rw [withDigits?_whole positive small units tie (by omega)] at hit
      split at hit
      · cases hit
        rfl
      · cases hit

theorem write_whole : NumberLayout.shell.write magnitude = Text.ofNat whole := by
  have length := (Text.length_ofNat_le_iff (by decide)).mpr small
  have point : (Decimal.ofScaled whole 0).point = (Text.ofNat whole).length := Int.add_zero _
  have lower : NumberLayout.shell.lowest = -5 := rfl
  have upper : NumberLayout.shell.highest = 21 := rfl
  rw [NumberLayout.write]
  simp only [shortest_whole positive small units]
  rw [if_pos (by omega)]
  exact Decimal.positional_ofScaled whole

end Magnitude

namespace Double

/-- The double of an integer is written as the integer is. -/
theorem shellText_ofInt {number : Int} (small : number.natAbs < 10 ^ 15) :
    (ofInt number).shellText = Text.ofInt number := by
  have exact : number.natAbs ≤ exactLimit := Nat.le_trans (Nat.le_of_lt small) (by decide)
  rcases exists_ofInt_eq exact with ⟨magnitude, units, equal⟩
  rw [equal, shellText, Text.ofInt]
  rcases Nat.eq_zero_or_pos number.natAbs with zero | positive
  · rw [zero, Nat.zero_mul] at units
    rw [Magnitude.eq_zero_of_units units, zero, if_neg (by omega), decide_eq_false (by omega)]
    rfl
  · have written := Magnitude.write_whole positive small units
    have nonzero : magnitude.units ≠ 0 := by
      rw [units]
      exact Nat.ne_of_gt (Nat.mul_pos positive Magnitude.unitsPerOne_pos)
    rw [written, decide_eq_true nonzero, Bool.and_true]
    by_cases negative : number < 0
    · rw [decide_eq_true negative, if_pos negative]
      rfl
    · rw [decide_eq_false negative, if_neg negative]
      rfl

end Double

end DocShell
