import DocShell.Number.Shortest

namespace DocShell

/-! The layout of a decimal in text: which powers of ten are written out with a
point, what marks a whole number, and how an exponent looks. -/

namespace Decimal

/-- The decimal written out, with `wholeTail` behind a number without fraction. -/
def positional (wholeTail : List Char) (decimal : Decimal) : List Char :=
  let size := decimal.digits.length
  if decimal.point ≤ 0 then
    ['0', '.'] ++ List.replicate decimal.point.natAbs '0' ++ decimal.digits
  else if decimal.point < size then
    decimal.digits.take decimal.point.toNat ++ '.' :: decimal.digits.drop decimal.point.toNat
  else
    decimal.digits ++ List.replicate (decimal.point - size).toNat '0' ++ wholeTail

def scientific (decimal : Decimal) : List Char :=
  let exponent := decimal.point - 1
  let mantissa := match decimal.digits with
    | [] => []
    | [digit] => [digit]
    | digit :: rest => digit :: '.' :: rest
  mantissa ++ 'e' :: (if exponent < 0 then '-' else '+') :: Text.ofNat exponent.natAbs

end Decimal

/-- The choices of one number format. Decimals with a point in the range from
`lowest` to `highest` are written out, all others in scientific form. -/
structure NumberLayout where
  lowest : Int
  highest : Int
  wholeTail : List Char
  tie : Tie

namespace NumberLayout

def shell : NumberLayout := ⟨-5, 21, [], .up⟩

def json : NumberLayout := ⟨-4, 16, ['.', '0'], .even⟩

def write (layout : NumberLayout) (magnitude : Magnitude) : List Char :=
  let decimal := magnitude.shortest layout.tie
  if layout.lowest ≤ decimal.point ∧ decimal.point ≤ layout.highest then
    decimal.positional layout.wholeTail
  else decimal.scientific

end NumberLayout

namespace Double

private def signed (negative : Bool) (text : List Char) : List Char :=
  if negative then '-' :: text else text

/-- The shell text of a number, in which both zeros are `0`. -/
def shellText : Double → List Char
  | .nan => "NaN".toList
  | .infinity negative => signed negative "Infinity".toList
  | .finite negative magnitude =>
      signed (negative && magnitude.units ≠ 0) (NumberLayout.shell.write magnitude)

/-- The text of a JSON float, which keeps the sign of zero. Only finite numbers
have one; JSON has `null` for the others. -/
def jsonText : Double → List Char
  | .finite negative magnitude => signed negative (NumberLayout.json.write magnitude)
  | _ => "null".toList

def plainText : Double → List Char
  | .nan => "NaN".toList
  | .infinity negative => signed negative "inf".toList
  | .finite negative magnitude =>
      signed negative ((magnitude.shortest .up).positional [])

end Double

end DocShell
