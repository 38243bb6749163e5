import DocShell.Number.Magnitude

namespace DocShell

/-! Binary64 numbers as exact data: a sign with a magnitude, two infinities and
one not-a-number. The two zeros are different data that compare as equal. -/

inductive Double
  | nan
  | infinity (negative : Bool)
  | finite (negative : Bool) (magnitude : Magnitude)
deriving DecidableEq

namespace Double

def neg : Double → Double
  | .nan => .nan
  | .infinity negative => .infinity (!negative)
  | .finite negative magnitude => .finite (!negative) magnitude

@[simp] theorem neg_neg (number : Double) : number.neg.neg = number := by
  cases number <;> simp [neg]

def zero : Double := .finite false .zero

def isFinite : Double → Bool
  | .finite _ _ => true
  | _ => false

def isNan : Double → Bool
  | .nan => true
  | _ => false

def signedUnits (negative : Bool) (magnitude : Magnitude) : Int :=
  if negative then -(magnitude.units : Int) else magnitude.units

/-- Numerical equality: a not-a-number equals nothing, and the zeros are equal. -/
def equal : Double → Double → Bool
  | .infinity left, .infinity right => left == right
  | .finite left leftMagnitude, .finite right rightMagnitude =>
      signedUnits left leftMagnitude == signedUnits right rightMagnitude
  | _, _ => false

example : equal (.finite true .zero) .zero = true ∧ equal .nan .nan = false := by decide

/-! ## Whole numbers -/

/-- The number of a rounded magnitude; one beyond the largest is infinite. -/
def ofMagnitude (negative : Bool) : Option Magnitude → Double
  | some magnitude => .finite negative magnitude
  | none => .infinity negative

def ofRatio (negative : Bool) (numerator denominator : Nat) : Double :=
  ofMagnitude negative (Magnitude.nearest? (numerator * Magnitude.unitsPerOne) denominator)

def ofInt (number : Int) : Double :=
  ofRatio (decide (number < 0)) number.natAbs 1

def truncated (negative : Bool) (magnitude : Magnitude) : Int :=
  let whole := magnitude.units / Magnitude.unitsPerOne
  if negative then -(whole : Int) else whole

def toInt? : Double → Option Int
  | .finite negative magnitude =>
      if magnitude.units % Magnitude.unitsPerOne = 0 then some (truncated negative magnitude)
      else none
  | _ => none

def truncatedWithin? (limit : Nat) : Double → Option Int
  | .finite negative magnitude =>
      if magnitude.units ≤ limit * Magnitude.unitsPerOne then some (truncated negative magnitude)
      else none
  | _ => none

/-- The largest bound below which a double tells every integer from its neighbours. -/
def exactLimit : Nat := 2 ^ 53

def toExactInt? (number : Double) : Option Int :=
  number.toInt?.filter (·.natAbs ≤ exactLimit)

/-! ## Interchange bits -/

def ofBits (bits : Nat) : Double :=
  let negative := bits / 2 ^ 63 % 2 = 1
  let exponent := bits / 2 ^ 52 % 2 ^ 11
  let fraction := bits % 2 ^ 52
  have fraction_lt : fraction < 2 ^ 52 := Nat.mod_lt _ (Nat.two_pow_pos _)
  if special : exponent = 2047 then
    if fraction = 0 then .infinity negative else .nan
  else if subnormal : exponent = 0 then
    .finite negative ⟨fraction, 0, by omega, by omega, .inl rfl⟩
  else
    have exponent_lt : exponent < 2 ^ 11 := Nat.mod_lt _ (Nat.two_pow_pos _)
    .finite negative ⟨2 ^ 52 + fraction, exponent - 1, by omega, by omega, .inr (by omega)⟩

/-- The 64-bit interchange pattern of a number, in its quiet form for not-a-number. -/
def toBits : Double → Nat
  | .nan => 0x7ff8000000000000
  | .infinity negative => (if negative then 2 ^ 63 else 0) + 2047 * 2 ^ 52
  | .finite negative magnitude =>
      (if negative then 2 ^ 63 else 0) +
        if magnitude.mantissa < 2 ^ 52 then magnitude.mantissa
        else (magnitude.shift + 1) * 2 ^ 52 + (magnitude.mantissa - 2 ^ 52)

example : (ofInt 1).toBits = 0x3ff0000000000000 := by decide +kernel

end Double

end DocShell
