import DocShell.Proofs.Scalar.DecimalText
import DocShell.Scalar.LongText

namespace DocShell

/-! # Texts that are integers of 64 bits

The check of the form and the reading of the digits agree on every text: what passes both
is an integer behind at most one sign that fits, and the integer that is read off it is the
one that its digits spell. -/

structure WrittenInteger where
  sign : Option Sign
  digits : List Char
  nonempty : digits ≠ []
  allDigits : ∀ digit ∈ digits, digit.isDigit = true

namespace WrittenInteger

def text (written : WrittenInteger) : String :=
  String.ofList ((written.sign.map Sign.character).toList ++ written.digits)

def value (written : WrittenInteger) : Int :=
  if written.sign = some .minus then -(Text.natOfDigits written.digits : Int)
  else Text.natOfDigits written.digits

theorem int?_text (written : WrittenInteger) :
    Text.int? written.text.toList = some written.value := by
  rcases written with ⟨sign, digits, nonempty, allDigits⟩
  have sound : ExponentSpelling.Sound ⟨'e', sign, digits⟩ := ⟨.inl rfl, nonempty, allDigits⟩
  rw [text, String.toList_ofList]
  exact ExponentSpelling.int?_digits sound

theorem exists_of_int? {text : String} {value : Int} (read : Text.int? text.toList = some value) :
    ∃ written : WrittenInteger, written.text = text := by
  rcases ExponentSpelling.exists_of_int? (.inl (Eq.refl 'e')) read with ⟨exponent, sound, spelled⟩
  have digits := (List.cons.inj spelled).2
  refine ⟨⟨exponent.sign, exponent.digits, sound.nonempty, sound.allDigits⟩, ?_⟩
  rw [WrittenInteger.text, digits, String.ofList_toList]

end WrittenInteger

namespace LongText

theorem fault?_text (written : WrittenInteger) :
    fault? written.text = if FitsLong written.value then none else some .outOfRange := by
  rw [fault?, isFormed_eq, read?_eq, written.int?_text]
  by_cases fits : FitsLong written.value <;> simp [Option.filter_some, fits]

theorem fault?_eq_malformed_iff {text : String} :
    fault? text = some .malformed ↔ ∀ written : WrittenInteger, written.text ≠ text := by
  constructor
  · rintro malformed written rfl
    rw [fault?_text] at malformed
    split at malformed <;> cases malformed
  · intro unwritten
    cases read : Text.int? text.toList with
    | none => rw [fault?, isFormed_eq, read, Option.isSome_none, if_pos rfl]
    | some value =>
        rcases WrittenInteger.exists_of_int? read with ⟨written, spelled⟩
        exact absurd spelled (unwritten written)

theorem fault?_eq_outOfRange_iff {text : String} :
    fault? text = some .outOfRange ↔
      ∃ written : WrittenInteger, written.text = text ∧ ¬FitsLong written.value := by
  constructor
  · intro tooLarge
    have formed : ¬∀ written : WrittenInteger, written.text ≠ text := fun unwritten => by
      rw [fault?_eq_malformed_iff.mpr unwritten] at tooLarge
      cases tooLarge
    push Not at formed
    rcases formed with ⟨written, rfl⟩
    refine ⟨written, rfl, fun fits => ?_⟩
    rw [fault?_text, if_pos fits] at tooLarge
    cases tooLarge
  · rintro ⟨written, rfl, tooLarge⟩
    rw [fault?_text, if_neg tooLarge]

/-- A text is accepted if it is an integer behind at most one sign that fits, malformed if it
is none at all, and out of range if it only does not fit. What is accepted keeps its text,
from which its integer can always be read, and spelled out anew it is the same integer. -/
theorem parse_written :
    (∀ text long, parse text = .ok long ↔
      long.text = text ∧ ∃ written : WrittenInteger,
        written.text = text ∧ FitsLong written.value ∧ written.value = long.value) ∧
    (∀ text, parse text = .error .malformed ↔ ∀ written : WrittenInteger, written.text ≠ text) ∧
    (∀ text, parse text = .error .outOfRange ↔
      ∃ written : WrittenInteger, written.text = text ∧ ¬FitsLong written.value) ∧
    (∀ long : LongText, read? long.text.toList = some long.value) ∧
    (∀ value fits, (ofInt value fits).value = value) ∧
    ∀ long : LongText, long.normal.value = long.value := by
  refine ⟨fun text long => ?_, fun text => ?_, fun text => ?_, read?_text, value_ofInt,
    fun long => ?_⟩
  · rw [parse_eq_ok_iff]
    refine ⟨fun kept => ⟨kept, ?_⟩, And.left⟩
    subst kept
    rcases WrittenInteger.exists_of_int? long.reads with ⟨written, spelled⟩
    have same : written.value = long.value :=
      Option.some.inj (written.int?_text.symm.trans (spelled ▸ long.reads))
    exact ⟨written, spelled, same ▸ long.fits, same⟩
  · rw [parse_eq_error_iff, fault?_eq_malformed_iff]
  · rw [parse_eq_error_iff, fault?_eq_outOfRange_iff]
  · exact value_ofInt long.value long.fits

/-- The least integer is accepted, the one below it is not. -/
theorem parse_written_least :
    (ofInt (-2 ^ 63) (by decide)).value = -2 ^ 63 ∧
      parse "-9223372036854775809" = .error .outOfRange := by
  let below : WrittenInteger :=
    ⟨some .minus, "9223372036854775809".toList, by decide, List.all_eq_true.mp rfl⟩
  exact ⟨parse_written.2.2.2.2.1 (-2 ^ 63) (by decide),
    (parse_written.2.2.1 "-9223372036854775809").mpr ⟨below, by decide, by decide⟩⟩

end LongText

end DocShell
