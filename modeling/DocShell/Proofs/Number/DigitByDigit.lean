import DocShell.Proofs.Number.Based
import DocShell.Proofs.Number.Closest
import Mathlib.Data.List.Induction

namespace DocShell

/-! # Doubles made digit by digit

In a base that is a power of two, rounding after each digit amounts to one rounding, at
the digit with which the number reaches `2 ^ 53`. All digits behind it only move the
double up. The number as a whole is rounded otherwise just if that digit leaves a tie,
which goes down to an even double, and the digits behind it are not all zero. -/

namespace Text

variable {base : Nat}

theorem natInBase_append (base : Nat) (front back : List Char) :
    natInBase base (front ++ back) =
      natInBase base front * base ^ back.length + natInBase base back := by
  have each (start : Nat) : back.foldl
      (fun number digit => number * base + (digitIn? base digit).getD 0) start =
        start * base ^ back.length + natInBase base back := by
    induction back generalizing start with
    | nil => simp [natInBase]
    | cons digit back induction =>
        have single := induction ((digitIn? base digit).getD 0)
        rw [natInBase, List.foldl_cons, List.foldl_cons, Nat.zero_mul, Nat.zero_add, single,
          induction, List.length_cons, Nat.pow_succ']
        rw [Nat.add_mul, Nat.mul_assoc, Nat.add_assoc]
  rw [natInBase, List.foldl_append, each]
  rfl

theorem natInBase_singleton (base : Nat) (digit : Char) :
    natInBase base [digit] = (digitIn? base digit).getD 0 := by
  simp [natInBase]

theorem getD_digitIn?_lt {digit : Char} (inside : (digitIn? base digit).isSome = true) :
    (digitIn? base digit).getD 0 < base := by
  rcases Option.isSome_iff_exists.mp inside with ⟨value, found⟩
  rw [found, Option.getD_some]
  exact of_decide_eq_true (Option.filter_eq_some_iff.mp found).2

theorem natInBase_lt {digits : List Char}
    (inside : ∀ digit ∈ digits, (digitIn? base digit).isSome = true) :
    natInBase base digits < base ^ digits.length := by
  induction digits with
  | nil => exact Nat.one_pos
  | cons digit digits induction =>
      have first := getD_digitIn?_lt (inside digit List.mem_cons_self)
      have later := induction fun other member => inside other (List.mem_cons_of_mem _ member)
      rw [← List.singleton_append, natInBase_append, natInBase_singleton, List.length_append,
        List.length_singleton, Nat.pow_add, Nat.pow_one]
      calc (digitIn? base digit).getD 0 * base ^ digits.length + natInBase base digits
          < ((digitIn? base digit).getD 0 + 1) * base ^ digits.length := by
            rw [Nat.succ_mul]
            exact Nat.add_lt_add_left later _
        _ ≤ base * base ^ digits.length := Nat.mul_le_mul_right _ first

/-- There is a first digit with which a number reaches a bound. -/
theorem exists_reaching {bound : Nat} (positive : 0 < bound) {digits : List Char}
    (large : bound ≤ natInBase base digits) :
    ∃ front digit back, digits = front ++ digit :: back ∧ natInBase base front < bound ∧
      bound ≤ natInBase base (front ++ [digit]) := by
  induction digits using List.reverseRecOn with
  | nil => exact absurd positive (Nat.not_lt.mpr large)
  | append_singleton front digit induction =>
      rcases Nat.lt_or_ge (natInBase base front) bound with below | reached
      · exact ⟨front, digit, [], rfl, below, large⟩
      · rcases induction reached with ⟨start, first, rest, rfl, below, reaches⟩
        exact ⟨start, first, rest ++ [digit], by simp, below, reaches⟩

end Text

/-! ## Rounding the front of a number -/

/-- A number halfway between two doubles, of which the lower one has an even mantissa. -/
def IsLowTie (number : Nat) : Prop :=
  ∃ lower power, number = (2 * lower + 1) * 2 ^ power ∧ lower % 2 = 0 ∧ 2 ^ 52 ≤ lower ∧
    lower < 2 ^ 53

/-- Rounding a number and rounding its front differ where the front is a tie that goes
down and something is left behind it. -/
theorem nearestQuotient_mul_add {number half scale rest : Nat} (small : rest < scale) :
    nearestQuotient (number * scale + rest) (2 * half * scale) =
      if number % (2 * half) = half ∧ number / (2 * half) % 2 = 0 ∧ rest ≠ 0 then
        number / (2 * half) + 1
      else nearestQuotient number (2 * half) := by
  have positive : 0 < scale := Nat.zero_lt_of_lt small
  have quotient : (number * scale + rest) / (2 * half * scale) = number / (2 * half) := by
    rw [Nat.mul_comm (2 * half), ← Nat.div_div_eq_div_mul, Nat.mul_comm number,
      Nat.mul_add_div positive, Nat.div_eq_of_lt small, Nat.add_zero]
  have remainder : (number * scale + rest) % (2 * half * scale) =
      number % (2 * half) * scale + rest := by
    have parts := Nat.div_add_mod' number (2 * half)
    have whole := Nat.div_add_mod' (number * scale + rest) (2 * half * scale)
    rw [quotient] at whole
    have scaled := congrArg (· * scale) parts
    simp only [Nat.add_mul, Nat.mul_assoc] at scaled whole ⊢
    omega
  have place : 2 * half * scale = 2 * (half * scale) := Nat.mul_assoc _ _ _
  rw [nearestQuotient, nearestQuotient, quotient, remainder, place]
  generalize number / (2 * half) = whole
  generalize number % (2 * half) = left
  rcases Nat.lt_trichotomy left half with below | rfl | above
  · have step := Nat.mul_le_mul_right scale (show left + 1 ≤ half from below)
    rw [Nat.succ_mul] at step
    rw [if_pos (by omega), if_neg (fun tie => Nat.ne_of_lt below tie.1), if_pos (by omega)]
  · -- a tie stays one just if nothing is behind it
    rcases Nat.eq_zero_or_pos rest with rfl | some
    · simp
    · rw [if_neg (by omega), if_pos (by omega), if_neg (Nat.lt_irrefl _), if_neg (Nat.lt_irrefl _)]
      by_cases even : whole % 2 = 0
      · rw [if_pos ⟨rfl, even, Nat.ne_of_gt some⟩]
      · rw [if_neg (fun tie => even tie.2.1), if_neg even]
  · have step := Nat.mul_le_mul_right scale (show half + 1 ≤ left from above)
    rw [Nat.succ_mul] at step
    rw [if_neg (by omega), if_pos (by omega), if_neg (fun tie => Nat.ne_of_gt above tie.1),
      if_neg (by omega), if_pos (by omega)]

/-- What is less than half of the last place does not count. -/
theorem Magnitude.nearest?_full_add {mantissa shift extra : Nat} (full : 2 ^ 52 ≤ mantissa)
    (fits : mantissa < 2 ^ 53) (small : 2 * extra < 2 ^ shift) :
    nearest? (mantissa * 2 ^ shift + extra) 1 = nearest? (mantissa * 2 ^ shift) 1 := by
  have lower := Nat.mul_le_mul_right (2 ^ shift) full
  have upper := Nat.mul_le_mul_right (2 ^ shift) (show mantissa + 1 ≤ 2 ^ 53 from fits)
  rw [Nat.succ_mul] at upper
  have rounded : nearestQuotient (mantissa * 2 ^ shift + extra) (2 ^ shift) = mantissa := by
    refine nearestQuotient_eq ?_ ?_
    · rw [Nat.mul_assoc]
      omega
    · rw [Nat.succ_mul (2 * mantissa), Nat.mul_assoc]
      omega
  have above : 2 ^ 52 * 2 ^ shift ≤ mantissa * 2 ^ shift + extra := Nat.le_add_right_of_le lower
  rw [nearest?_eq_nearest?_rounded above (by omega), rounded]

namespace Double

theorem mul_pow_mul_unitsPerOne (number shift : Nat) :
    number * 2 ^ shift * Magnitude.unitsPerOne = number * 2 ^ (shift + 1074) := by
  rw [Magnitude.unitsPerOne, Nat.mul_assoc, ← Nat.pow_add]

/-- A whole number of 53 bits and some zeros is a double, unless it is too large. -/
theorem ofInt_full {mantissa : Nat} (full : 2 ^ 52 ≤ mantissa) (fits : mantissa < 2 ^ 53)
    (shift : Nat) :
    ofInt ((mantissa * 2 ^ shift : Nat) : Int) =
      if bounded : shift + 1074 ≤ 2045 then
        .finite false ⟨mantissa, shift + 1074, fits, bounded, .inr full⟩
      else .infinity false := by
  rw [ofInt_natCast, mul_pow_mul_unitsPerOne, Magnitude.nearest?_full full fits]
  split <;> rfl

/-- A whole number is the double of its first 53 bits, rounded. -/
theorem ofInt_eq_ofInt_rounded {whole shift : Nat} (lower : 2 ^ 52 * 2 ^ shift ≤ whole)
    (upper : whole < 2 ^ 53 * 2 ^ shift) :
    ofInt whole = ofInt ((nearestQuotient whole (2 ^ shift) * 2 ^ shift : Nat) : Int) := by
  have same := nearestQuotient_mul_mul whole (2 ^ shift) Magnitude.unitsPerOne_pos
  have low := Nat.mul_le_mul_right Magnitude.unitsPerOne lower
  have high := Nat.mul_lt_mul_of_pos_right upper Magnitude.unitsPerOne_pos
  have place := mul_pow_mul_unitsPerOne 1 shift
  rw [Nat.one_mul, Nat.one_mul] at place
  rw [place] at same
  rw [mul_pow_mul_unitsPerOne] at low high
  rw [ofInt_natCast, ofInt_natCast, Magnitude.nearest?_eq_nearest?_rounded low high, same,
    mul_pow_mul_unitsPerOne]

theorem lt_two_pow_iff {whole shift bits : Nat} (lower : 2 ^ 52 * 2 ^ shift ≤ whole)
    (upper : whole < 2 ^ 53 * 2 ^ shift) : whole < 2 ^ bits ↔ shift + 53 ≤ bits := by
  rw [← Nat.pow_add] at lower upper
  constructor
  · intro small
    have powers :=
      (Nat.pow_lt_pow_iff_right (by decide : 1 < 2)).mp (Nat.lt_of_le_of_lt lower small)
    omega
  · exact fun bounded => Nat.lt_of_lt_of_le upper (Nat.pow_le_pow_right (by decide) (by omega))

section

variable {number shift : Nat} (lower : 2 ^ 52 * 2 ^ (shift + 1) ≤ number)
  (upper : number < 2 ^ 53 * 2 ^ (shift + 1))

include lower upper

theorem isLowTie_iff :
    IsLowTie number ↔
      number % (2 * 2 ^ shift) = 2 ^ shift ∧ number / (2 * 2 ^ shift) % 2 = 0 := by
  have half : 0 < 2 ^ shift := Nat.two_pow_pos shift
  have twice : 2 ^ (shift + 1) = 2 * 2 ^ shift := Nat.pow_succ'
  have bounds := And.intro ((Nat.le_div_iff_mul_le (Nat.two_pow_pos _)).mpr lower)
    ((Nat.div_lt_iff_lt_mul (Nat.two_pow_pos _)).mpr upper)
  rw [twice] at bounds
  -- The bounds leave one place for the odd half, so a tie anywhere is a tie at that place.
  constructor
  · rintro ⟨mantissa, power, rfl, even, full, fits⟩
    have scaled := Nat.mul_le_mul_right (2 ^ power) (show 2 ^ 53 ≤ 2 * mantissa + 1 by omega)
    have above := Nat.mul_le_mul_right (2 ^ power) (show 2 * mantissa + 2 ≤ 2 ^ 54 by omega)
    have place : power + 1 = shift + 1 := by
      rw [← Magnitude.shiftFor_eq upper (.inr lower)]
      refine (Magnitude.shiftFor_eq ?_ (.inr ?_)).symm
      · rw [Nat.pow_succ]
        rw [Nat.succ_mul (2 * mantissa + 1)] at above
        omega
      · rw [Nat.pow_succ]
        omega
    have same : power = shift := Nat.succ.inj place
    subst same
    have split : (2 * mantissa + 1) * 2 ^ power = 2 ^ power + 2 * 2 ^ power * mantissa := by
      rw [Nat.succ_mul, Nat.mul_right_comm, Nat.add_comm]
    rw [split, Nat.add_mul_mod_self_left, Nat.add_mul_div_left _ _ (by omega),
      Nat.mod_eq_of_lt (by omega), Nat.div_eq_of_lt (by omega), Nat.zero_add]
    exact ⟨rfl, even⟩
  · rintro ⟨tie, even⟩
    have parts := Nat.div_add_mod' number (2 * 2 ^ shift)
    refine ⟨number / (2 * 2 ^ shift), shift, ?_, even, bounds.1, bounds.2⟩
    rw [tie] at parts
    rw [Nat.succ_mul, Nat.mul_right_comm, Nat.mul_comm (2 * 2 ^ shift), parts]

end

/-- A whole number that is a double whose neighbours are more than one away. -/
def Coarse (whole : Nat) : Prop :=
  ∃ mantissa shift, whole = mantissa * 2 ^ (shift + 1) ∧ 2 ^ 52 ≤ mantissa ∧ mantissa < 2 ^ 53

theorem coarse_rounded {mantissa shift : Nat} (positive : 0 < shift) (full : 2 ^ 52 ≤ mantissa)
    (fits : mantissa ≤ 2 ^ 53) : Coarse (mantissa * 2 ^ shift) := by
  rcases Nat.exists_eq_add_one.mpr positive with ⟨fewer, rfl⟩
  rcases Nat.lt_or_eq_of_le fits with less | rfl
  · exact ⟨mantissa, fewer, rfl, full, less⟩
  · exact ⟨2 ^ 52, fewer + 1, Magnitude.two_pow_53_mul _, Nat.le_refl _, by decide⟩

theorem Coarse.mul_pow {whole : Nat} (coarse : Coarse whole) (power : Nat) :
    Coarse (whole * 2 ^ power) := by
  rcases coarse with ⟨mantissa, shift, rfl, full, fits⟩
  refine ⟨mantissa, shift + power, ?_, full, fits⟩
  rw [Nat.mul_assoc, ← Nat.pow_add, Nat.add_right_comm]

end Double

namespace Token

open Double

/-- A digit behind a number with coarse neighbours only makes it larger. -/
theorem appendDigit_coarse {whole : Nat} (coarse : Coarse whole) {power digit : Nat}
    (small : digit < 2 ^ power) :
    appendDigit (2 ^ power) (ofInt whole) digit = ofInt ((whole * 2 ^ power : Nat) : Int) := by
  rcases coarse with ⟨mantissa, shift, rfl, full, fits⟩
  rw [Nat.mul_assoc, ← Nat.pow_add, ofInt_full full fits]
  by_cases bounded : shift + 1 + 1074 ≤ 2045
  · -- the digit is less than half of the place that the longer number is rounded to
    have place : 2 * digit * Magnitude.unitsPerOne < 2 ^ (shift + 1 + power + 1074) := by
      rw [← Nat.one_mul (2 ^ _), ← mul_pow_mul_unitsPerOne, Nat.one_mul]
      refine Nat.mul_lt_mul_of_pos_right ?_ Magnitude.unitsPerOne_pos
      calc 2 * digit < 2 * 2 ^ power := by omega
        _ ≤ 2 ^ shift * (2 * 2 ^ power) := Nat.le_mul_of_pos_left _ (Nat.two_pow_pos shift)
        _ = 2 ^ (shift + 1 + power) := by rw [Nat.pow_add, Nat.pow_succ, Nat.mul_assoc]
    have units : mantissa * 2 ^ (shift + 1 + 1074) * 2 ^ power =
        mantissa * 2 ^ (shift + 1 + power + 1074) := by
      rw [Nat.mul_assoc, ← Nat.pow_add, Nat.add_right_comm]
    rw [Nat.mul_assoc] at place
    rw [dif_pos bounded, appendDigit, Magnitude.units_mk, units,
      Magnitude.nearest?_full_add full fits place, ofInt_natCast, mul_pow_mul_unitsPerOne]
  · rw [dif_neg bounded, ofInt_full full fits, dif_neg (by omega)]
    rfl

/-- Neither do any digits behind it. -/
theorem foldl_appendDigit_coarse {power : Nat} {digits : List Char}
    (inside : ∀ digit ∈ digits, (Text.digitIn? (2 ^ power) digit).isSome = true) {whole : Nat}
    (coarse : Coarse whole) :
    digits.foldl (fun number digit =>
        appendDigit (2 ^ power) number ((Text.digitIn? (2 ^ power) digit).getD 0)) (ofInt whole) =
      ofInt ((whole * (2 ^ power) ^ digits.length : Nat) : Int) := by
  induction digits generalizing whole with
  | nil => rw [List.foldl_nil, List.length_nil, Nat.pow_zero, Nat.mul_one]
  | cons digit digits induction =>
      have small := Text.getD_digitIn?_lt (inside digit List.mem_cons_self)
      rw [List.foldl_cons, appendDigit_coarse coarse small,
        induction (fun other member => inside other (List.mem_cons_of_mem _ member))
          (coarse.mul_pow power), List.length_cons, Nat.pow_succ', Nat.mul_assoc]

theorem basedValue_small {base : Nat} (atLeast : 2 ≤ base) {digits : List Char}
    (small : Text.natInBase base digits < exactLimit) :
    basedValue base digits = ofInt (Text.natInBase base digits) := by
  cases follows_basedValue atLeast digits with
  | exact _ equal => exact equal
  | rounded next _ => omega
  | beyond large _ => omega

/-- As long as the number is no larger than `2 ^ 53` it is kept, so the digit behind is the
first one that is rounded. -/
theorem basedValue_concat {base : Nat} (atLeast : 2 ≤ base) {front : List Char}
    (small : Text.natInBase base front < exactLimit) (digit : Char) :
    basedValue base (front ++ [digit]) = ofInt (Text.natInBase base (front ++ [digit])) := by
  have value := basedValue_small atLeast small
  have appended := appendDigit_ofInt (Nat.le_of_lt small) base ((Text.digitIn? base digit).getD 0)
  rw [Text.natInBase_append, Text.natInBase_singleton, List.length_singleton, Nat.pow_one,
    ← appended, ← value, basedValue, List.foldl_append, List.foldl_cons, List.foldl_nil]
  rfl

/-! ## The whole number -/

/-- What rounding the front of a number first does to the whole number. Where it matters,
the number comes out one place too low. -/
theorem ofInt_rounded_mul_eq_iff {reached shift power rest : Nat}
    (lower : 2 ^ 52 * 2 ^ (shift + 1) ≤ reached) (upper : reached < 2 ^ 53 * 2 ^ (shift + 1))
    (small : rest < 2 ^ power) :
    ofInt ((nearestQuotient reached (2 ^ (shift + 1)) * 2 ^ (shift + 1) * 2 ^ power : Nat) : Int) =
        ofInt ((reached * 2 ^ power + rest : Nat) : Int) ↔
      ¬(IsLowTie reached ∧ rest ≠ 0 ∧ reached * 2 ^ power + rest < 2 ^ 1024) := by
  have place : 2 ^ (shift + 1 + power) = 2 * 2 ^ shift * 2 ^ power := by
    rw [Nat.pow_add, Nat.pow_succ']
  have twice : 2 ^ (shift + 1) = 2 * 2 ^ shift := Nat.pow_succ'
  have totalLower : 2 ^ 52 * 2 ^ (shift + 1 + power) ≤ reached * 2 ^ power + rest := by
    rw [Nat.pow_add, ← Nat.mul_assoc]
    exact Nat.le_trans (Nat.mul_le_mul_right _ lower) (Nat.le_add_right _ _)
  have totalUpper : reached * 2 ^ power + rest < 2 ^ 53 * 2 ^ (shift + 1 + power) := by
    have step := Nat.mul_le_mul_right (2 ^ power) (show reached + 1 ≤ _ from upper)
    rw [Nat.succ_mul, Nat.mul_assoc, ← Nat.pow_add] at step
    omega
  have tie := isLowTie_iff lower upper
  have fewer := (Nat.div_lt_iff_lt_mul (Nat.two_pow_pos _)).mpr upper
  have least := (Nat.le_div_iff_mul_le (Nat.two_pow_pos _)).mpr lower
  rw [twice] at fewer least
  rw [ofInt_eq_ofInt_rounded totalLower totalUpper, lt_two_pow_iff totalLower totalUpper,
    Nat.mul_assoc, ← Nat.pow_add, place, nearestQuotient_mul_add small, ← place]
  by_cases lost : IsLowTie reached ∧ rest ≠ 0
  · -- the lower of the two doubles around the tie, and the upper one
    rcases tie.mp lost.1 with ⟨half, even⟩
    have down : nearestQuotient reached (2 * 2 ^ shift) = reached / (2 * 2 ^ shift) := by
      rw [nearestQuotient, half, if_neg (Nat.lt_irrefl _), if_neg (Nat.lt_irrefl _), if_pos even]
    rw [if_pos ⟨half, even, lost.2⟩, twice, down, ofInt_full least fewer,
      ofInt_full (Nat.le_succ_of_le least) (by omega)]
    by_cases bounded : shift + 1 + power + 1074 ≤ 2045
    · rw [dif_pos bounded, dif_pos bounded]
      refine iff_of_false (fun same => ?_) (not_not_intro ⟨lost.1, lost.2, by omega⟩)
      injection same with _ same
      injection same with same
      omega
    · rw [dif_neg bounded, dif_neg bounded]
      exact iff_of_true rfl fun small => bounded (by omega)
  · rw [if_neg (fun moved => lost ⟨tie.mpr ⟨moved.1, moved.2.1⟩, moved.2.2⟩), twice]
    exact iff_of_true rfl fun moved => lost ⟨moved.1, moved.2.1⟩

/-- The digit with which the number reaches `2 ^ 53` leaves a tie that goes down, and the
digits behind it are not all zero. A number that is too large as a whole does not count. -/
def LosesTie (base : Nat) (digits : List Char) : Prop :=
  ∃ front digit back, digits = front ++ digit :: back ∧
    Text.natInBase base front < exactLimit ∧ IsLowTie (Text.natInBase base (front ++ [digit])) ∧
    Text.natInBase base back ≠ 0 ∧ Text.natInBase base digits < 2 ^ 1024

section

variable {power : Nat} (positive : 0 < power)

include positive

theorem basedValue_reached {front back : List Char} {digit : Char}
    (inside : ∀ other ∈ front ++ digit :: back,
      (Text.digitIn? (2 ^ power) other).isSome = true)
    (below : Text.natInBase (2 ^ power) front < exactLimit)
    (reaches : exactLimit ≤ Text.natInBase (2 ^ power) (front ++ [digit])) :
    basedValue (2 ^ power) (front ++ digit :: back) =
        ofInt (Text.natInBase (2 ^ power) (front ++ digit :: back)) ↔
      ¬(IsLowTie (Text.natInBase (2 ^ power) (front ++ [digit])) ∧
        Text.natInBase (2 ^ power) back ≠ 0 ∧
        Text.natInBase (2 ^ power) (front ++ digit :: back) < 2 ^ 1024) := by
  have behind : ∀ other ∈ back, (Text.digitIn? (2 ^ power) other).isSome = true :=
    fun other member => inside other (List.mem_append_right _ (List.mem_cons_of_mem _ member))
  have first := basedValue_concat (Nat.one_lt_two_pow (Nat.ne_of_gt positive)) below digit
  have small := Text.natInBase_lt behind
  rw [List.append_cons, Text.natInBase_append, basedValue, List.foldl_append]
  rw [basedValue] at first
  rw [first]
  generalize Text.natInBase (2 ^ power) (front ++ [digit]) = reached at reaches ⊢
  have upper := Magnitude.lt_shiftFor reached
  rcases Nat.eq_zero_or_pos (Magnitude.shiftFor reached) with unshifted | shifted
  · rw [unshifted] at upper
    exact absurd reaches (Nat.not_le.mpr upper)
  · have lower := Magnitude.le_of_shiftFor_ne_zero (Nat.ne_of_gt shifted)
    have bounds := Magnitude.nearestQuotient_full lower upper
    rw [ofInt_eq_ofInt_rounded lower upper,
      foldl_appendDigit_coarse behind (coarse_rounded shifted bounds.1 bounds.2)]
    rcases Nat.exists_eq_add_one.mpr shifted with ⟨fewer, place⟩
    rw [place] at lower upper ⊢
    rw [← Nat.pow_mul] at small ⊢
    exact ofInt_rounded_mul_eq_iff lower upper small

/-- Digit by digit the double of the whole number is found, but for a tie that is lost. -/
theorem basedValue_eq_ofInt_iff {digits : List Char}
    (inside : ∀ digit ∈ digits, (Text.digitIn? (2 ^ power) digit).isSome = true) :
    basedValue (2 ^ power) digits = ofInt (Text.natInBase (2 ^ power) digits) ↔
      ¬LosesTie (2 ^ power) digits := by
  constructor
  · rintro equal ⟨front, digit, back, rfl, below, tie, rest⟩
    have reaches : exactLimit ≤ Text.natInBase (2 ^ power) (front ++ [digit]) := by
      rcases tie with ⟨lower, shift, split, -, full, -⟩
      rw [split]
      exact Nat.le_trans (show 2 ^ 53 ≤ 2 * lower + 1 by omega)
        (Nat.le_mul_of_pos_right _ (Nat.two_pow_pos shift))
    exact (basedValue_reached positive inside below reaches).mp equal ⟨tie, rest⟩
  · intro kept
    rcases Nat.lt_or_ge (Text.natInBase (2 ^ power) digits) exactLimit with small | large
    · exact basedValue_small (Nat.one_lt_two_pow (Nat.ne_of_gt positive)) small
    · rcases Text.exists_reaching (by decide) large with ⟨front, digit, back, rfl, below, reaches⟩
      exact (basedValue_reached positive inside below reaches).mpr fun lost =>
        kept ⟨front, digit, back, rfl, below, lost⟩

end

end Token

end DocShell
