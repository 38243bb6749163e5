import DocShell.Number.Decimal

namespace DocShell

/-! The shortest decimal that reads back as a given magnitude. For one digit,
two digits and so on, the two neighbours of the magnitude on that decimal grid
are read back; the first grid with a success wins, and of two successes the
nearer. Seventeen digits always suffice. -/

/-- Where an exact tie between two equally short decimals goes. -/
inductive Tie
  | up
  | even
deriving DecidableEq, Repr

/-- The decimal `0.d₁d₂… * 10 ^ point` with the given digits. -/
structure Decimal where
  digits : List Char
  point : Int
deriving DecidableEq, Repr

namespace Decimal

/-- The decimal `significand * 10 ^ exponent`, without zeros at its end. -/
def ofScaled (significand : Nat) (exponent : Int) : Decimal :=
  let digits := Text.ofNat significand
  ⟨(digits.reverse.dropWhile (· = '0')).reverse, digits.length + exponent⟩

end Decimal

namespace Magnitude

/-- The power of ten just above a magnitude that is not zero: the magnitude lies
in `[10 ^ (place - 1), 10 ^ place)`. No such magnitude is below `10 ^ -324`. -/
def place (magnitude : Magnitude) : Int :=
  (Text.ofNat (magnitude.units * 10 ^ 324 / unitsPerOne)).length - 324

def readsBack (magnitude : Magnitude) (significand : Nat) (exponent : Int) : Bool :=
  Double.ofDecimal false significand exponent = .finite false magnitude

def nearerNeighbour (tie : Tie) (numerator denominator : Nat) : Nat :=
  let low := numerator / denominator
  let twiceRest := 2 * (numerator % denominator)
  if twiceRest < denominator then low
  else if denominator < twiceRest then low + 1
  else
    match tie with
    | .up => low + 1
    | .even => if low % 2 = 0 then low else low + 1

/-- Of two neighbours the one that fits, or the nearer one if both do. -/
def fittingNeighbour? (lowFits highFits : Bool) (low nearer : Nat) : Option Nat :=
  match lowFits, highFits with
  | true, true => some nearer
  | true, false => some low
  | false, true => some (low + 1)
  | false, false => none

/-- The decimal with `count` digits that reads back as the magnitude, if one of
the two neighbours on that grid does. -/
def withDigits? (tie : Tie) (magnitude : Magnitude) (count : Nat) : Option Decimal :=
  let exponent := magnitude.place - count
  let numerator := magnitude.units * 10 ^ (-exponent).toNat
  let denominator := unitsPerOne * 10 ^ exponent.toNat
  let low := numerator / denominator
  (fittingNeighbour? (magnitude.readsBack low exponent) (magnitude.readsBack (low + 1) exponent)
    low (nearerNeighbour tie numerator denominator)).map (Decimal.ofScaled · exponent)

/-- Every digit of a magnitude: one unit is `5 ^ 1074 * 10 ^ -1074`. -/
def exactDecimal (magnitude : Magnitude) : Decimal :=
  Decimal.ofScaled (magnitude.units * 5 ^ 1074) (-1074)

/-- The shortest decimal that reads back as the magnitude; zero is `0.0 * 10`. -/
def shortest (tie : Tie) (magnitude : Magnitude) : Decimal :=
  if magnitude.units = 0 then ⟨['0'], 1⟩
  else ((List.range' 1 17).findSome? (magnitude.withDigits? tie)).getD magnitude.exactDecimal

end Magnitude

end DocShell
