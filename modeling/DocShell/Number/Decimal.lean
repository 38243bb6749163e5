import DocShell.Number.Double
import DocShell.Text.Digits

namespace DocShell

/-! Decimal numerals and the doubles they denote. A numeral is split into its
digits before and after the point and its power of ten; a double is read from it
by one correct rounding, however many digits there are. -/

/-- The double nearest to `significand * 10 ^ exponent`. Exponents far outside the
range of doubles are settled without raising ten to them. -/
def Double.ofDecimal (negative : Bool) (significand : Nat) (exponent : Int) : Double :=
  if significand = 0 then .finite negative .zero
  else if 400 < exponent then .infinity negative
  else if exponent + (Text.ofNat significand).length < -400 then .finite negative .zero
  else Double.ofRatio negative (significand * 10 ^ exponent.toNat) (10 ^ (-exponent).toNat)

structure Numeral where
  whole : List Char
  fraction : List Char
  exponent : Int
deriving DecidableEq, Repr

namespace Numeral

def digits (numeral : Numeral) : List Char := numeral.whole ++ numeral.fraction

def toDouble (numeral : Numeral) (negative : Bool) : Double :=
  Double.ofDecimal negative (Text.natOfDigits numeral.digits)
    (numeral.exponent - numeral.fraction.length)

/-! ## Reading

Readers take what they recognise from the front of a text and hand back the rest.
Each rest is a tail of the text, which is what makes loops over readers end. -/

def takeDigits (text : List Char) : List Char × List Char :=
  (text.takeWhile Char.isDigit, text.dropWhile Char.isDigit)

theorem takeDigits_append (text : List Char) :
    (takeDigits text).1 ++ (takeDigits text).2 = text :=
  List.takeWhile_append_dropWhile

def takeFraction : List Char → List Char × List Char
  | '.' :: text => takeDigits text
  | text => ([], text)

def takeExponentDigits (text : List Char) : Option (Int × List Char) :=
  let signed (negative : Bool) (text : List Char) :=
    match takeDigits text with
    | ([], _) => none
    | (digits, rest) =>
        let size : Int := Text.natOfDigits digits
        some (if negative then -size else size, rest)
  match text with
  | '-' :: text => signed true text
  | '+' :: text => signed false text
  | text => signed false text

/-- An exponent mark with its digits, when both are there. -/
def takeExponent : List Char → Option (Int × List Char)
  | 'e' :: text | 'E' :: text => takeExponentDigits text
  | _ => none

def takeTail (whole : List Char) (text : List Char) : Numeral × List Char :=
  let (fraction, text) := takeFraction text
  match takeExponent text with
  | some (exponent, rest) => (⟨whole, fraction, exponent⟩, rest)
  | none => (⟨whole, fraction, 0⟩, text)

theorem suffix_takeDigits (text : List Char) : (takeDigits text).2 <:+ text :=
  List.dropWhile_suffix _

theorem suffix_takeFraction (text : List Char) : (takeFraction text).2 <:+ text := by
  unfold takeFraction
  split
  · exact (suffix_takeDigits _).trans (List.suffix_cons _ _)
  · exact List.suffix_refl _

theorem suffix_takeExponentDigits {text rest : List Char} {exponent : Int}
    (taken : takeExponentDigits text = some (exponent, rest)) : rest <:+ text := by
  have signed (negative : Bool) (text : List Char)
      (taken : (match takeDigits text with
        | ([], _) => none
        | (digits, rest) =>
            some (if negative then -(Text.natOfDigits digits : Int) else
              Text.natOfDigits digits, rest)) = some (exponent, rest)) :
      rest <:+ text := by
    have suffix := suffix_takeDigits text
    generalize takeDigits text = found at taken suffix
    rcases found with ⟨_ | ⟨digit, digits⟩, behind⟩
    · cases taken
    · simp only [Option.some.injEq, Prod.mk.injEq] at taken
      exact taken.2 ▸ suffix
  unfold takeExponentDigits at taken
  split at taken
  · exact (signed true _ taken).trans (List.suffix_cons _ _)
  · exact (signed false _ taken).trans (List.suffix_cons _ _)
  · exact signed false _ taken

/-- An exponent takes at least its mark. -/
theorem exists_cons_of_takeExponent {text rest : List Char} {exponent : Int}
    (taken : takeExponent text = some (exponent, rest)) :
    ∃ mark behind, text = mark :: behind ∧ rest <:+ behind := by
  unfold takeExponent at taken
  split at taken
  · exact ⟨_, _, rfl, suffix_takeExponentDigits taken⟩
  · exact ⟨_, _, rfl, suffix_takeExponentDigits taken⟩
  · cases taken

theorem suffix_takeExponent {text rest : List Char} {exponent : Int}
    (taken : takeExponent text = some (exponent, rest)) : rest <:+ text := by
  rcases exists_cons_of_takeExponent taken with ⟨mark, behind, rfl, suffix⟩
  exact suffix.trans (List.suffix_cons _ _)

/-- What is left behind a numeral is left behind its fraction, if not less. -/
theorem suffix_takeTail (whole text : List Char) :
    (takeTail whole text).2 <:+ (takeFraction text).2 := by
  unfold takeTail
  generalize takeFraction text = found
  rcases found with ⟨digits, behind⟩
  simp only
  split
  · rename_i exponent rest taken
    exact suffix_takeExponent taken
  · exact List.suffix_refl _

/-- What is left behind a numeral that has digits before its point. -/
theorem length_takeTail_lt {text : List Char} (found : (takeDigits text).1 ≠ []) :
    (takeTail (takeDigits text).1 (takeDigits text).2).2.length < text.length := by
  have lengths := congrArg List.length (takeDigits_append text)
  have positive := List.length_pos_iff.mpr found
  have fraction := (suffix_takeFraction (takeDigits text).2).length_le
  have tail := (suffix_takeTail (takeDigits text).1 (takeDigits text).2).length_le
  rw [List.length_append] at lengths
  omega

/-- The longest numeral at the front of a text. It has digits on at least one
side of its point. -/
def take? (text : List Char) : Option (Numeral × List Char) :=
  let (whole, behind) := takeDigits text
  let (numeral, rest) := takeTail whole behind
  if numeral.digits = [] then none else some (numeral, rest)

example : (take? ['1', '.', '5', 'e', '+', 'x']).map (·.2) = some ['e', '+', 'x'] := by decide

example : ((take? ['0', '.', '5']).map fun found => found.1.toDouble true) =
    some (Double.ofRatio true 1 2) := by decide +kernel

end Numeral

/-! ## Words for the values that are not finite -/

/-- The text of a double as a data field may spell it: a numeral, or one of the
words `inf`, `infinity` and `nan` in any case of letters, with at most one sign. -/
def Double.ofText? (text : List Char) : Option Double :=
  let unsigned (negative : Bool) (text : List Char) : Option Double :=
    let word := text.map Char.toLower
    if word = "inf".toList ∨ word = "infinity".toList then some (.infinity negative)
    else if word = "nan".toList then some .nan
    else match Numeral.take? text with
      | some (numeral, []) => some (numeral.toDouble negative)
      | _ => none
  match text with
  | '-' :: text => unsigned true text
  | '+' :: text => unsigned false text
  | text => unsigned false text

end DocShell
