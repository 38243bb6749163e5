import DocShell.Proofs.Bridge.Return
import DocShell.Proofs.Scalar.ShellDecimal

namespace DocShell

/-! # Readers of printed numbers

The text of a double is read in three places: as a number of shell text, as the text of a
typed double, and as a decimal. Each has a grammar of its own. All of them take what is
printed, and those that read a double get the one that was printed, though not the sign of
a zero. -/

namespace Double

/-- Two doubles that are the same, or differ in the sign of zero only. -/
def Matches (left right : Double) : Prop := left = right ∨ left.equal right = true

instance (left right : Double) : Decidable (Matches left right) := by
  unfold Matches
  infer_instance

theorem matches_unsignedZero (number : Double) : number.unsignedZero.Matches number := by
  cases number with
  | nan => exact .inl rfl
  | infinity negative => exact .inl rfl
  | finite negative magnitude =>
      by_cases zero : magnitude.units = 0
      · refine .inr ?_
        simp [unsignedZero, equal, signedUnits, zero]
      · refine .inl ?_
        simp [unsignedZero, zero]

def behindSign (negative : Bool) (number : Double) : Double :=
  if negative then number.neg else number

/-- In shell text, a finite number is one token, behind a minus sign if it is negative. -/
theorem scan_shellText {number : Double} (finite : number.isFinite = true) :
    ∃ negative literal tokens finish,
      Token.scan (String.ofList number.shellText) = .ok (tokens, finish) ∧
      tokens.map (·.lexeme) = (if negative then [.mark .minus] else []) ++ [.number literal] ∧
      (behindSign negative literal.value).Matches number := by
  cases number with
  | nan => cases finite
  | infinity negative => cases finite
  | finite negative magnitude =>
      rcases (Token.spells_shellText (.finite negative magnitude) Token.apart_nil).scan with
        ⟨tokens, finish, scanned, lexemes⟩
      refine ⟨negative && magnitude.units ≠ 0, _, tokens, finish, scanned, lexemes, ?_⟩
      have printed := matches_unsignedZero (.finite negative magnitude)
      rw [unsignedZero] at printed
      cases sign : negative && decide (magnitude.units ≠ 0) <;>
        rw [sign] at printed <;> exact printed

end Double

/-- Every double is printed as a decimal that is accepted. -/
theorem DecimalText.fault?_shellText (number : Double) :
    fault? (String.ofList number.shellText) = none := by
  cases number with
  | nan => decide
  | infinity negative => cases negative <;> decide
  | finite negative magnitude =>
      rcases NumberLayout.exists_written_write
          (if negative && magnitude.units ≠ 0 then some .minus else none) magnitude with
        ⟨written, sign, accepted, spelled, _⟩
      have text : (Double.finite negative magnitude).shellText = written.text := by
        rw [WrittenDecimal.text, sign, spelled, Double.shellText]
        cases negative && decide (magnitude.units ≠ 0) <;> rfl
      rw [text]
      rcases written.fault?_text with ⟨sound, _⟩ | ⟨_, refused⟩
      · exact sound
      · exact absurd accepted refused

theorem DecimalText.exists_shellText (number : Double) :
    ∃ decimal, parse (String.ofList number.shellText) = .ok decimal ∧
      decimal.text = String.ofList number.shellText := by
  have sound := fault?_shellText number
  generalize String.ofList number.shellText = text at sound
  exact ⟨⟨text, sound⟩, parse_text ⟨text, sound⟩, rfl⟩

/-- What is printed for a double is one number token behind at most a minus sign, if the
double is finite; it is the text of that double as a typed value; and it is a decimal. -/
theorem Double.readers_shellText (number : Double) :
    (number.isFinite = true → ∃ negative literal tokens finish,
      Token.scan (String.ofList number.shellText) = .ok (tokens, finish) ∧
      tokens.map (·.lexeme) = (if negative then [.mark .minus] else []) ++ [.number literal] ∧
      (behindSign negative literal.value).Matches number) ∧
    (∃ read, Value.ofJson (.wrapped "$numberDouble" (.string (String.ofList number.shellText))) =
        .ok (.double read) ∧ read.Matches number) ∧
    ∃ decimal, DecimalText.parse (String.ofList number.shellText) = .ok decimal ∧
      decimal.text = String.ofList number.shellText :=
  ⟨scan_shellText, ⟨_, Value.ofJson_typedDouble number, matches_unsignedZero number⟩,
    DecimalText.exists_shellText number⟩

/-- The negative number next to zero. -/
theorem Double.readers_shellText_least :
    (ofBits 0x8000000000000001).shellText = "-5e-324".toList ∧
      ∃ negative literal tokens finish,
        Token.scan (String.ofList (ofBits 0x8000000000000001).shellText) = .ok (tokens, finish) ∧
        tokens.map (·.lexeme) = (if negative then [.mark .minus] else []) ++ [.number literal] ∧
        (behindSign negative literal.value).Matches (ofBits 0x8000000000000001) :=
  ⟨by decide +kernel, (readers_shellText (ofBits 0x8000000000000001)).1 (by decide +kernel)⟩

end DocShell
