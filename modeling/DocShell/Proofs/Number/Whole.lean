import DocShell.Proofs.Number.Spelling

namespace DocShell

/-! # Whole numbers as doubles

Integers up to `2 ^ 53` survive the way into a double and back, and so does their
plain spelling. -/

namespace Double

/-- An integer in the exact range is the double with that many whole units. -/
theorem exists_ofInt_eq {number : Int} (exact : number.natAbs ≤ exactLimit) :
    ∃ magnitude : Magnitude, magnitude.units = number.natAbs * Magnitude.unitsPerOne ∧
      ofInt number = .finite (decide (number < 0)) magnitude := by
  rcases Magnitude.exists_units_eq exact with ⟨magnitude, units⟩
  refine ⟨magnitude, units, ?_⟩
  have ratio := ofRatio_units (decide (number < 0)) magnitude Nat.one_pos
  rw [Nat.mul_one, Nat.mul_one] at ratio
  rw [ofInt, ← ofRatio_mul_mul _ _ _ Magnitude.unitsPerOne_pos, ← units, Nat.one_mul, ratio]

theorem toInt?_ofInt {number : Int} (exact : number.natAbs ≤ exactLimit) :
    (ofInt number).toInt? = some number := by
  rcases exists_ofInt_eq exact with ⟨magnitude, units, equal⟩
  rw [equal, toInt?, units, Nat.mul_mod_left, if_pos rfl, truncated, units,
    Nat.mul_div_cancel _ Magnitude.unitsPerOne_pos]
  by_cases negative : number < 0
  · simp only [negative, decide_true, if_true]
    rw [show -(number.natAbs : Int) = number by omega]
  · simp only [negative, decide_false]
    rw [if_neg (by decide), show (number.natAbs : Int) = number by omega]

theorem toExactInt?_ofInt {number : Int} (exact : number.natAbs ≤ exactLimit) :
    (ofInt number).toExactInt? = some number := by
  rw [toExactInt?, toInt?_ofInt exact, Option.filter_some, if_pos (decide_eq_true exact)]

theorem natAbs_le_of_toExactInt? {number : Double} {whole : Int}
    (found : number.toExactInt? = some whole) : whole.natAbs ≤ exactLimit :=
  of_decide_eq_true (Option.filter_eq_some_iff.mp found).2

theorem signedUnits_of_toInt? {negative : Bool} {magnitude : Magnitude} {whole : Int}
    (found : (finite negative magnitude).toInt? = some whole) :
    signedUnits negative magnitude = whole * Magnitude.unitsPerOne := by
  rw [toInt?] at found
  split at found
  · rename_i exact
    cases found
    have units : (magnitude.units : Int) =
        (magnitude.units / Magnitude.unitsPerOne : Nat) * (Magnitude.unitsPerOne : Int) := by
      rw [← Int.natCast_mul, Nat.div_mul_cancel (Nat.dvd_of_mod_eq_zero exact)]
    cases negative with
    | false => exact units
    | true => exact (congrArg Neg.neg units).trans (Int.neg_mul _ _).symm
  · cases found

/-- A whole number in the exact range equals the double of its integer. -/
theorem equal_ofInt {number : Double} {whole : Int} (found : number.toExactInt? = some whole) :
    (ofInt whole).equal number = true := by
  have small := natAbs_le_of_toExactInt? found
  have read := toInt?_ofInt small
  rcases exists_ofInt_eq small with ⟨magnitude, _, equal⟩
  rw [equal] at read ⊢
  have whole := (Option.filter_eq_some_iff.mp found).1
  cases number with
  | finite negative other =>
      rw [Double.equal, signedUnits_of_toInt? read, signedUnits_of_toInt? whole, beq_self_eq_true]
  | _ => cases whole

theorem truncatedWithin?_ofInt {number : Int} {limit : Nat} (within : number.natAbs ≤ limit)
    (exact : limit ≤ exactLimit) : (ofInt number).truncatedWithin? limit = some number := by
  have read := toInt?_ofInt (Nat.le_trans within exact)
  rcases exists_ofInt_eq (Nat.le_trans within exact) with ⟨magnitude, units, equal⟩
  rw [equal, toInt?] at read
  rw [equal, truncatedWithin?, units, if_pos (Nat.mul_le_mul_right _ within)]
  rw [units, Nat.mul_mod_left, if_pos rfl] at read
  exact read

/-- Integers of 64 bits are far from the end of the doubles. -/
theorem isFinite_ofInt {number : Int} (small : number.natAbs < 2 ^ 64) :
    (ofInt number).isFinite = true := by
  have units : number.natAbs * Magnitude.unitsPerOne / 1 < 2 ^ (64 + 1074) := by
    rw [Nat.div_one, Nat.pow_add, ← Magnitude.unitsPerOne]
    exact Nat.mul_lt_mul_of_pos_right small Magnitude.unitsPerOne_pos
  have rounded := Magnitude.isSome_nearest? (by decide) units
  rcases Option.isSome_iff_exists.mp rounded with ⟨magnitude, found⟩
  rw [ofInt, ofRatio, found]
  rfl

theorem neg_ofMagnitude (negative : Bool) (rounded : Option Magnitude) :
    (ofMagnitude negative rounded).neg = ofMagnitude (!negative) rounded := by
  cases rounded <;> rfl

theorem neg_ofInt {number : Int} (negative : number < 0) :
    (ofInt number.natAbs).neg = ofInt number := by
  have unsigned : ¬(number.natAbs : Int) < 0 := by omega
  rw [ofInt, ofInt, ofRatio, ofRatio, neg_ofMagnitude, Int.natAbs_natCast, decide_eq_true negative,
    decide_eq_false unsigned]
  rfl

/-- Decimal digits denote the double of their integer. -/
theorem ofDecimal_zero (number : Nat) : ofDecimal false number 0 = ofInt number := by
  by_cases zero : number = 0
  · have exact : (number : Int).natAbs ≤ exactLimit := by simp [zero]
    rcases exists_ofInt_eq exact with ⟨magnitude, units, equal⟩
    have nothing : magnitude.units = 0 := by simp [units, zero]
    rw [equal, Magnitude.eq_zero_of_units nothing, ofDecimal, if_pos zero]
    simp
  · rw [ofDecimal, if_neg zero, if_neg (by decide), if_neg (by omega), ofInt]
    congr 1
    simp

end Double

def Spelling.ofNat (whole : Nat) : Spelling := ⟨Text.ofNat whole, none, none⟩

theorem Spelling.text_ofNat (whole : Nat) : (Spelling.ofNat whole).text = Text.ofNat whole :=
  List.append_nil _

theorem Spelling.sound_ofNat (whole : Nat) : (Spelling.ofNat whole).Sound := by
  refine ⟨⟨fun _ => Text.isDigit_of_mem_ofNat, nofun, nofun⟩, Text.ofNat_ne_nil whole, ?_⟩
  intro leading
  rcases Nat.eq_zero_or_pos whole with zero | positive
  · subst zero
    rfl
  · exact absurd leading (Text.head?_ofNat_ne_zero positive)

namespace Token

/-- An integer without a sign is one token, which denotes its double. -/
theorem number_ofNat (whole : Nat) {rest : List Char} (apart : Apart rest) :
    number (Text.ofNat whole ++ rest) =
      .ok (⟨Double.ofInt whole, String.ofList (Text.ofNat whole)⟩, (Text.ofNat whole).length) := by
  have double : (Spelling.ofNat whole).numeral.toDouble false = Double.ofInt whole := by
    rw [← Double.ofDecimal_zero]
    simp [Spelling.ofNat, Spelling.numeral, Numeral.toDouble, Numeral.digits]
  have read := Spelling.number_text (Spelling.sound_ofNat whole) apart
  rwa [Spelling.text_ofNat, double] at read

end Token

end DocShell
