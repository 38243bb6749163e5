import DocShell.Proofs.Number.Whole

namespace DocShell

/-! # Doubles as the text of data fields

The shell text of a double, read as a data field, is that double again, except that
zero has lost its sign. -/

namespace Double

theorem neg_ofDecimal (negative : Bool) (significand : Nat) (exponent : Int) :
    (ofDecimal negative significand exponent).neg = ofDecimal (!negative) significand exponent := by
  unfold ofDecimal
  split
  · rfl
  split
  · rfl
  split
  · rfl
  · exact neg_ofMagnitude _ _

def unsignedZero : Double → Double
  | .finite negative magnitude => .finite (negative && magnitude.units ≠ 0) magnitude
  | number => number

theorem shellText_unsignedZero (number : Double) : number.unsignedZero.shellText = number.shellText := by
  cases number with
  | finite negative magnitude =>
      simp only [unsignedZero, shellText, Bool.and_assoc, Bool.and_self]
  | _ => rfl

end Double

theorem Numeral.neg_toDouble (numeral : Numeral) (negative : Bool) :
    (numeral.toDouble negative).neg = numeral.toDouble (!negative) :=
  Double.neg_ofDecimal _ _ _

/-- With either sign, the text of a magnitude is read back as it. -/
theorem Numeral.take?_write (negative : Bool) (magnitude : Magnitude) :
    ∃ numeral, take? (NumberLayout.shell.write magnitude) = some (numeral, []) ∧
      numeral.toDouble negative = .finite negative magnitude := by
  rcases NumberLayout.exists_spelling_write magnitude with ⟨spelling, sound, equal, double⟩
  have read := Spelling.take?_text sound.toFormed sound.digits_ne_nil Token.apart_nil
  rw [List.append_nil] at read
  refine ⟨spelling.numeral, equal ▸ read, ?_⟩
  cases negative with
  | false => exact double
  | true =>
      rw [← Bool.not_false, ← neg_toDouble, double]
      rfl

/-- The text of a magnitude begins with a digit. -/
theorem NumberLayout.exists_write_eq (magnitude : Magnitude) :
    ∃ digit rest, shell.write magnitude = digit :: rest ∧ digit.isDigit = true := by
  rcases exists_spelling_write magnitude with ⟨⟨whole, fraction, exponent⟩, sound, equal, _⟩
  cases whole with
  | nil => exact absurd rfl sound.nonempty
  | cons digit rest => exact ⟨digit, _, equal, sound.wholeDigits digit List.mem_cons_self⟩

namespace Double

/-- A digit is no sign, and none of the words for other numbers begins with one. -/
theorem plain_of_isDigit {digit : Char} (isDigit : digit.isDigit = true) :
    digit ≠ '-' ∧ digit ≠ '+' ∧ digit.toLower ≠ 'i' ∧ digit.toLower ≠ 'n' :=
  Text.forall_ascii (fun digit => digit.isDigit = true →
    digit ≠ '-' ∧ digit ≠ '+' ∧ digit.toLower ≠ 'i' ∧ digit.toLower ≠ 'n')
    (by decide +kernel) (Text.toNat_lt_of_isDigit isDigit) isDigit

theorem ofText?_signed (negative : Bool) (magnitude : Magnitude) :
    ofText? (if negative then '-' :: NumberLayout.shell.write magnitude
      else NumberLayout.shell.write magnitude) = some (.finite negative magnitude) := by
  rcases Numeral.take?_write negative magnitude with ⟨numeral, taken, double⟩
  rcases NumberLayout.exists_write_eq magnitude with ⟨digit, rest, equal, isDigit⟩
  rcases plain_of_isDigit isDigit with ⟨noMinus, noPlus, noI, noN⟩
  rw [equal] at taken ⊢
  have noInf : (digit :: rest).map Char.toLower ≠ "inf".toList :=
    fun same => noI (List.cons.inj same).1
  have noInfinity : (digit :: rest).map Char.toLower ≠ "infinity".toList :=
    fun same => noI (List.cons.inj same).1
  have noNan : (digit :: rest).map Char.toLower ≠ "nan".toList :=
    fun same => noN (List.cons.inj same).1
  cases negative with
  | true =>
      rw [if_pos rfl, ofText?]
      simp only [noInf, noInfinity, noNan, or_self, if_false, taken, double]
  | false =>
      rw [if_neg Bool.false_ne_true, ofText?]
      · simp only [noInf, noInfinity, noNan, or_self, if_false, taken, double]
      · exact fun _ same => noMinus (List.cons.inj same).1
      · exact fun _ same => noPlus (List.cons.inj same).1

theorem ofText?_shellText (number : Double) :
    ofText? number.shellText = some number.unsignedZero := by
  cases number with
  | nan => rfl
  | infinity negative => cases negative <;> rfl
  | finite negative magnitude => exact ofText?_signed (negative && magnitude.units ≠ 0) magnitude

end Double

end DocShell
