import DocShell.Value.Basic

namespace DocShell.Value

/-! # Two notions of equality

`same` compares structure, and doubles as numbers: a value that holds a
not-a-number is not the same as itself, and the two zeros are the same.

`semanticEq` also identifies the three kinds of number that text writes alike,
and takes every not-a-number for equal. Whatever has digits of its own, and the
order of fields, must still match exactly. -/

mutual

def same : Value → Value → Bool
  | .absent, .absent => true
  | .null, .null => true
  | .bool left, .bool right => left == right
  | .number left, .number right => left.equal right
  | .string left, .string right => left == right
  | .objectId left, .objectId right => left == right
  | .int left, .int right => left == right
  | .long left, .long right => left.text == right.text
  | .decimal left, .decimal right => left.text == right.text
  | .double left, .double right => left.equal right
  | .date left, .date right => left == right
  | .regex left, .regex right => left == right
  | .timestamp leftSeconds leftIncrement, .timestamp rightSeconds rightIncrement =>
      leftSeconds == rightSeconds && leftIncrement == rightIncrement
  | .binary left, .binary right => left == right
  | .array left, .array right => sameItems left right
  | .document left, .document right => sameFields left right
  | _, _ => false

def sameItems : List Value → List Value → Bool
  | [], [] => true
  | left :: leftRest, right :: rightRest => same left right && sameItems leftRest rightRest
  | _, _ => false

def sameFields : List (String × Value) → List (String × Value) → Bool
  | [], [] => true
  | (leftName, left) :: leftRest, (rightName, right) :: rightRest =>
      leftName == rightName && same left right && sameFields leftRest rightRest
  | _, _ => false

end

/-- Numerical equality that also holds between two values that are not numbers. -/
def equalNumbers (left right : Double) : Bool :=
  left.equal right || (left.isNan && right.isNan)

mutual

def semanticEq : Value → Value → Bool
  | .array left, .array right => semanticEqItems left right
  | .document left, .document right => semanticEqFields left right
  | left, right =>
      match left.bareNumber?, right.bareNumber? with
      | some leftNumber, some rightNumber => equalNumbers leftNumber rightNumber
      | _, _ => same left right

def semanticEqItems : List Value → List Value → Bool
  | [], [] => true
  | left :: leftRest, right :: rightRest =>
      semanticEq left right && semanticEqItems leftRest rightRest
  | _, _ => false

def semanticEqFields : List (String × Value) → List (String × Value) → Bool
  | [], [] => true
  | (leftName, left) :: leftRest, (rightName, right) :: rightRest =>
      leftName == rightName && semanticEq left right && semanticEqFields leftRest rightRest
  | _, _ => false

end

end DocShell.Value
