import DocShell.Proofs.Number.Shortest
import DocShell.Proofs.Scalar.DecimalText

namespace DocShell

/-! # Doubles as decimals

The shell text of a finite double is an accepted decimal, and denotes the shortest
decimal that is read back as the double. -/

namespace Decimal

variable {decimal : Decimal}

/-- Zeros that fill a decimal up to its point are digits of its spelling. -/
theorem significand_positionalSpelling_lt (digits : ∀ digit ∈ decimal.digits, digit.isDigit = true)
    (few : Text.natOfDigits decimal.digits ≤ 10 ^ 17)
    (near : decimal.point ≤ NumberLayout.shell.highest) :
    Text.natOfDigits decimal.positionalSpelling.numeral.digits < 10 ^ DecimalText.digitLimit := by
  have small : Text.natOfDigits decimal.digits < 10 ^ DecimalText.digitLimit :=
    Nat.lt_of_le_of_lt few (by decide)
  rw [positionalSpelling]
  split
  · have number : Text.natOfDigits
        (['0'] ++ (List.replicate decimal.point.natAbs '0' ++ decimal.digits)) =
        Text.natOfDigits decimal.digits :=
      (Text.natOfDigits_zeros_append 1 _).trans (Text.natOfDigits_zeros_append _ _)
    exact number ▸ small
  · split
    · simpa only [Spelling.numeral, Numeral.digits, Option.getD_some, List.take_append_drop]
        using small
    · simp only [Spelling.numeral, Numeral.digits, Option.getD_none, List.append_nil]
      rw [Text.natOfDigits_append_zeros]
      have scaled := Nat.mul_lt_mul_of_pos_right (Text.natOfDigits_lt digits)
        (Nat.pow_pos (a := 10) (n := (decimal.point - decimal.digits.length).toNat) (by decide))
      rw [← Nat.pow_add] at scaled
      refine Nat.lt_of_lt_of_le scaled (Nat.pow_le_pow_right (by decide) ?_)
      rw [NumberLayout.shell] at near
      rw [DecimalText.digitLimit]
      simp only at near
      omega

theorem significand_scientificSpelling (nonempty : decimal.digits ≠ []) :
    decimal.scientificSpelling.numeral.digits = decimal.digits := by
  rcases decimal with ⟨_ | ⟨digit, _ | ⟨second, more⟩⟩, point⟩
  · exact absurd rfl nonempty
  · rfl
  · rfl

end Decimal

/-- Shell text writes every magnitude as a decimal that is accepted. -/
theorem NumberLayout.exists_written_write (sign : Option Sign) (magnitude : Magnitude) :
    ∃ written : WrittenDecimal, written.sign = sign ∧ written.Accepted ∧
      written.spelling.text = shell.write magnitude ∧
      written.spelling.numeral.value = (magnitude.shortest shell.tie).value := by
  have sound := magnitude.sound_shortest shell.tie
  have bounds := magnitude.shortest_bounds shell.tie
  simp only [write]
  generalize magnitude.shortest shell.tie = decimal at sound bounds
  split
  · rename_i near
    have spelled := Decimal.sound_positionalSpelling sound
    refine ⟨⟨sign, _, spelled.toFormed, spelled.digits_ne_nil⟩, rfl, ⟨?_, ?_⟩,
      decimal.text_positionalSpelling, decimal.value_positionalSpelling⟩
    · exact Decimal.significand_positionalSpelling_lt sound.allDigits bounds.1 near.2
    · have none : decimal.positionalSpelling.exponent = none := by
        rw [Decimal.positionalSpelling]
        split
        · rfl
        · split <;> rfl
      simp only [Spelling.numeral, none]
      decide
  · have spelled := Decimal.sound_scientificSpelling sound
    refine ⟨⟨sign, _, spelled.toFormed, spelled.digits_ne_nil⟩, rfl, ⟨?_, ?_⟩,
      decimal.text_scientificSpelling, Decimal.value_scientificSpelling sound.nonempty⟩
    · rw [WrittenDecimal.significand, Decimal.significand_scientificSpelling sound.nonempty]
      exact Nat.lt_of_le_of_lt bounds.1 (by decide)
    · simp only [Spelling.numeral, Decimal.scientificSpelling, Option.map_some,
        ExponentSpelling.power_ofInt, Option.getD_some, FitsInt]
      omega

end DocShell
