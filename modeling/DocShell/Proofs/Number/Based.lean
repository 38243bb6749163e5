import DocShell.Proofs.Number.Nearest
import DocShell.Proofs.Number.Whole

namespace DocShell

/-! # Numbers in other bases

Digit by digit the double follows the number that the digits denote, as long as that
number does not exceed `2 ^ 53`. The one above it is rounded down to it, and from there
on the double stays above. -/

def Text.natInBase (base : Nat) (digits : List Char) : Nat :=
  digits.foldl (fun number digit => number * base + (Text.digitIn? base digit).getD 0) 0

namespace Double

def Unsigned (number : Double) : Prop :=
  (∃ magnitude, number = .finite false magnitude) ∨ number = .infinity false

theorem unsigned_ofMagnitude (rounded : Option Magnitude) : Unsigned (ofMagnitude false rounded) := by
  cases rounded with
  | none => exact .inr rfl
  | some magnitude => exact .inl ⟨magnitude, rfl⟩

theorem unsigned_ofInt (number : Nat) : Unsigned (ofInt number) := by
  rw [ofInt, ofRatio, decide_eq_false (by omega)]
  exact unsigned_ofMagnitude _

theorem unsigned_ofDecimal (significand : Nat) (exponent : Int) :
    Unsigned (ofDecimal false significand exponent) := by
  rw [ofDecimal]
  split
  · exact .inl ⟨_, rfl⟩
  split
  · exact .inr rfl
  split
  · exact .inl ⟨_, rfl⟩
  · exact unsigned_ofMagnitude _

/-- The number is above all those that doubles tell apart from their neighbours. -/
inductive Beyond : Double → Prop
  | finite {magnitude : Magnitude} (large : exactLimit * Magnitude.unitsPerOne < magnitude.units) :
      Beyond (.finite false magnitude)
  | infinite : Beyond (.infinity false)

theorem Beyond.unsigned {number : Double} (beyond : number.Beyond) : number.Unsigned := by
  cases beyond with
  | finite large => exact .inl ⟨_, rfl⟩
  | infinite => exact .inr rfl

theorem Beyond.toExactInt? {number : Double} (beyond : number.Beyond) :
    number.toExactInt? = none := by
  cases beyond with
  | @finite magnitude large =>
      rw [Double.toExactInt?, Option.filter_eq_none_iff]
      intro whole read small
      have units := signedUnits_of_toInt? read
      have exact := Nat.mul_le_mul_right Magnitude.unitsPerOne (of_decide_eq_true small)
      have size := congrArg Int.natAbs units
      rw [Int.natAbs_mul, Int.natAbs_natCast] at size
      rw [← size] at exact
      exact absurd large (Nat.not_lt.mpr exact)
  | infinite => rfl

theorem exists_units_next :
    ∃ next : Magnitude, next.units = (exactLimit + 2) * Magnitude.unitsPerOne :=
  ⟨⟨2 ^ 52 + 1, 1075, by decide, by decide, .inr (by decide)⟩, by decide +kernel⟩

/-- There is a double two above the limit, so that what is at least as large stays
above the limit when it is rounded. -/
theorem beyond_of_le {negative : Bool} {units : Nat} (unsigned : negative = false)
    (above : (exactLimit + 2) * Magnitude.unitsPerOne ≤ units) :
    Beyond (.ofMagnitude negative (Magnitude.nearest? units 1)) := by
  subst unsigned
  rcases exists_units_next with ⟨next, nextUnits⟩
  cases found : Magnitude.nearest? units 1 with
  | none => exact .infinite
  | some rounded =>
      have order : next.units ≤ rounded.units :=
        Magnitude.units_le_of_nearest? Nat.one_pos (by rwa [Nat.mul_one, nextUnits]) found
      rw [nextUnits] at order
      refine .finite (Nat.lt_of_lt_of_le ?_ order)
      exact Nat.mul_lt_mul_of_pos_right (by decide) Magnitude.unitsPerOne_pos

inductive Follows (number : Nat) (double : Double) : Prop
  | exact (small : number ≤ exactLimit) (equal : double = ofInt number)
  | rounded (next : number = exactLimit + 1) (equal : double = ofInt exactLimit)
  | beyond (large : exactLimit + 1 < number) (beyond : double.Beyond)

theorem Follows.unsigned {number : Nat} {double : Double} (follows : Follows number double) :
    double.Unsigned := by
  cases follows with
  | exact small equal => exact equal ▸ unsigned_ofInt number
  | rounded next equal => exact equal ▸ unsigned_ofInt exactLimit
  | beyond large beyond => exact beyond.unsigned

theorem follows_ofInt (number : Nat) : Follows number (ofInt number) := by
  rcases Nat.lt_trichotomy number (exactLimit + 1) with small | rfl | large
  · exact .exact (Nat.le_of_lt_succ small) rfl
  · refine .rounded rfl ?_
    decide +kernel
  · refine .beyond large (beyond_of_le (decide_eq_false (by omega)) ?_)
    exact Nat.mul_le_mul_right Magnitude.unitsPerOne (show exactLimit + 2 ≤ number from large)

end Double

namespace Token

open Double

theorem appendDigit_ofInt {number : Nat} (small : number ≤ exactLimit) (base digit : Nat) :
    appendDigit base (ofInt number) digit = ofInt ((number * base + digit : Nat) : Int) := by
  rcases exists_ofInt_eq (show (number : Int).natAbs ≤ exactLimit from small) with ⟨magnitude, units, equal⟩
  rw [Int.natAbs_natCast] at units
  have negative : ¬(number : Int) < 0 ∧ ¬((number * base + digit : Nat) : Int) < 0 := by omega
  have scaled : number * Magnitude.unitsPerOne * base + digit * Magnitude.unitsPerOne =
      (number * base + digit) * Magnitude.unitsPerOne := by
    rw [Nat.add_mul, Nat.mul_right_comm]
  rw [equal, appendDigit, units, scaled, ofInt, ofRatio, Int.natAbs_natCast,
    decide_eq_false negative.1, decide_eq_false negative.2]

/-- A digit at least doubles a number. -/
theorem beyond_appendDigit {base : Nat} (atLeast : 2 ≤ base) {magnitude : Magnitude} (digit : Nat)
    (large : exactLimit * Magnitude.unitsPerOne ≤ magnitude.units) :
    (appendDigit base (.finite false magnitude) digit).Beyond := by
  refine beyond_of_le rfl ?_
  calc (exactLimit + 2) * Magnitude.unitsPerOne
      ≤ exactLimit * 2 * Magnitude.unitsPerOne := Nat.mul_le_mul_right _ (by decide)
    _ = exactLimit * Magnitude.unitsPerOne * 2 := by rw [Nat.mul_right_comm]
    _ ≤ magnitude.units * base := Nat.mul_le_mul large atLeast
    _ ≤ magnitude.units * base + digit * Magnitude.unitsPerOne := Nat.le_add_right _ _

/-- One more digit. -/
theorem follows_appendDigit {base : Nat} (atLeast : 2 ≤ base) {number : Nat} {double : Double}
    (follows : Follows number double) (digit : Nat) :
    Follows (number * base + digit) (appendDigit base double digit) := by
  have larger : number * 2 ≤ number * base := Nat.mul_le_mul_left _ atLeast
  cases follows with
  | exact small equal =>
      rw [equal, appendDigit_ofInt small]
      exact follows_ofInt _
  | rounded next equal =>
      have small : (exactLimit : Int).natAbs ≤ exactLimit := Nat.le_refl _
      rcases exists_ofInt_eq small with ⟨magnitude, units, double⟩
      rw [equal, double]
      refine .beyond (by omega) (beyond_appendDigit atLeast digit ?_)
      rw [units, Int.natAbs_natCast]
  | beyond large beyond =>
      refine .beyond (by omega) ?_
      cases beyond with
      | finite larger => exact beyond_appendDigit atLeast digit (Nat.le_of_lt larger)
      | infinite => exact .infinite

/-- All digits, from the left to the right. -/
theorem follows_basedValue {base : Nat} (atLeast : 2 ≤ base) (digits : List Char) :
    Follows (Text.natInBase base digits) (basedValue base digits) := by
  have each (digits : List Char) : ∀ number double, Follows number double →
      Follows (digits.foldl (fun number digit => number * base + (Text.digitIn? base digit).getD 0)
          number)
        (digits.foldl (fun double digit =>
          appendDigit base double ((Text.digitIn? base digit).getD 0)) double) := by
    induction digits with
    | nil => exact fun _ _ follows => follows
    | cons digit digits induction =>
        exact fun number double follows =>
          induction _ _ (follows_appendDigit atLeast follows _)
  refine each digits 0 .zero (.exact (Nat.zero_le _) ?_)
  decide +kernel

end Token

end DocShell
