import DocShell.Scalar.LongText

namespace DocShell

/-! # Decimals of 34 digits that keep their spelling

A decimal is an optional sign with digits on at least one side of a point and an
optional exponent, or one of three words. At most 34 digits may remain once the
zeros in front are gone, and the exponent fits into 32 bits. -/

namespace DecimalText

def digitLimit : Nat := 34

def words : List String := ["NaN", "Infinity", "Inf"]

def unsigned : List Char → List Char
  | '-' :: text => text
  | '+' :: text => text
  | text => text

/-- A text cut at the first character that satisfies a test. That character is in
neither part; without one there is no second part. -/
def cut (test : Char → Bool) (text : List Char) : List Char × Option (List Char) :=
  (text.takeWhile (!test ·), (text.dropWhile (!test ·)).tail?)

def unsignedFault? (text : List Char) : Option NumberFault :=
  let (mantissa, exponent) := cut (fun mark => mark = 'e' || mark = 'E') text
  let (whole, fraction) := cut (· = '.') mantissa
  let digits := whole ++ fraction.getD []
  if digits = [] ∨ digits.all Char.isDigit = false then some .malformed
  else
    match exponent.map Text.int? with
    | some none => some .malformed
    | some (some power) =>
        if power < -2 ^ 31 ∨ 2 ^ 31 ≤ power then some .outOfRange
        else if digitLimit < (digits.dropWhile (· = '0')).length then some .outOfRange
        else none
    | none => if digitLimit < (digits.dropWhile (· = '0')).length then some .outOfRange else none

def fault? (text : String) : Option NumberFault :=
  let unsigned := unsigned text.toList
  if String.ofList unsigned ∈ words then none else unsignedFault? unsigned

end DecimalText

structure DecimalText where
  text : String
  sound : DecimalText.fault? text = none
deriving DecidableEq

def DecimalText.parse (text : String) : Except NumberFault DecimalText :=
  match sound : fault? text with
  | none => .ok ⟨text, sound⟩
  | some fault => .error fault

end DocShell
