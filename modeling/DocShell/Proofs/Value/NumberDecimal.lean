import DocShell.Proofs.Scalar.DecimalRange
import DocShell.Proofs.Scalar.ShellDecimal
import DocShell.Proofs.Value.NumberCall
import Mathlib.Tactic.NormNum

namespace DocShell

/-! # Decimals from numbers

A decimal that is made from a number keeps the text of the number if that is a decimal,
and else takes the shortest digits of its double. There is always one or the other, so that
no number is refused, and what is kept is exact only if those digits happen to be. -/

namespace DecimalText

def Denotes (text : String) (value : ℚ) : Prop :=
  ∃ written : WrittenDecimal, text = String.ofList written.text ∧ written.value = value

theorem Denotes.unique {text : String} {first second : ℚ} (left : Denotes text first)
    (right : Denotes text second) : first = second := by
  rcases left with ⟨written, equal, rfl⟩
  rcases right with ⟨other, same, rfl⟩
  rcases WrittenDecimal.eq_of_text_eq (String.ofList_injective (equal.symm.trans same)) with
    ⟨signs, numerals⟩
  rw [WrittenDecimal.value, WrittenDecimal.value, signs, numerals]

theorem denotes_iff {written : WrittenDecimal} {value : ℚ} :
    Denotes (String.ofList written.text) value ↔ written.value = value :=
  ⟨fun denotes => Denotes.unique ⟨written, rfl, rfl⟩ denotes, fun equal => ⟨written, rfl, equal⟩⟩

theorem Denotes.not_isWord {text : String} {value : ℚ} (denotes : Denotes text value) :
    ¬IsWord text := by
  rcases denotes with ⟨written, rfl, _⟩
  exact written.not_isWord

end DecimalText

namespace Double

open DecimalText

theorem value_shortest_of_units {magnitude : Magnitude} (nothing : magnitude.units = 0)
    (tie : Tie) : (magnitude.shortest tie).value = 0 := by
  have zero : Text.natOfDigits ['0'] = 0 := rfl
  rw [Magnitude.shortest, if_pos nothing, Decimal.value, zero, Nat.cast_zero, zero_mul]

/-- The text of a double denotes its shortest decimal. -/
theorem denotes_shellText (negative : Bool) (magnitude : Magnitude) :
    ∃ written : WrittenDecimal, written.Accepted ∧
      (finite negative magnitude).shellText = written.text ∧
      written.value = if negative then -(magnitude.shortest .up).value
        else (magnitude.shortest .up).value := by
  cases minus : negative && decide (magnitude.units ≠ 0) with
  | true =>
      rcases NumberLayout.exists_written_write (some .minus) magnitude with
        ⟨written, sign, accepted, text, value⟩
      refine ⟨written, accepted, ?_, ?_⟩
      · rw [shellText, minus, WrittenDecimal.text, sign, text]
        rfl
      · rw [if_pos ((Bool.and_eq_true _ _).mp minus).1, WrittenDecimal.value, sign, value]
        rfl
  | false =>
      rcases NumberLayout.exists_written_write none magnitude with
        ⟨written, sign, accepted, text, value⟩
      refine ⟨written, accepted, ?_, ?_⟩
      · rw [shellText, minus, WrittenDecimal.text, sign, text]
        rfl
      · rw [WrittenDecimal.value, sign, value]
        change (magnitude.shortest .up).value = _
        rcases Bool.and_eq_false_iff.mp minus with positive | zero
        · rw [positive, if_neg Bool.false_ne_true]
        · have nothing := value_shortest_of_units (by simpa using zero) .up
          simp [nothing]

/-- The text of every double is a decimal. -/
theorem fault?_shellText (number : Double) : fault? (String.ofList number.shellText) = none := by
  cases number with
  | nan => decide
  | infinity negative => cases negative <;> decide
  | finite negative magnitude =>
      rcases denotes_shellText negative magnitude with ⟨written, accepted, equal, _⟩
      rw [equal]
      exact written.fault?_text.elim And.left fun refused => absurd accepted refused.2

end Double

namespace WrittenNumber

def decimal? (signs : List Sign) : WrittenNumber → Option WrittenDecimal
  | .decimal spelling formed nonempty _ =>
      some ⟨if Sign.negates signs then some .minus else none, spelling, formed, nonempty⟩
  | .based .. => none

theorem text_of_decimal? {signs : List Sign} {written : WrittenNumber} {decimal : WrittenDecimal}
    (found : written.decimal? signs = some decimal) :
    Sign.appliedToText signs written.text = decimal.text ∧
      decimal.value = Sign.appliedAll signs written.value := by
  cases written with
  | decimal spelling formed nonempty leading =>
      cases found
      rw [Sign.appliedToText, Sign.appliedAll_eq, WrittenDecimal.text, WrittenDecimal.value]
      cases Sign.negates signs <;> exact ⟨rfl, rfl⟩
  | based => cases found

/-- The prefix of a base belongs to no decimal. -/
theorem fault?_based {signs : List Sign} {written : WrittenNumber}
    (based : written.decimal? signs = none) :
    DecimalText.fault? (String.ofList (Sign.appliedToText signs written.text)) ≠ none := by
  cases written with
  | decimal spelling formed nonempty leading => cases based
  | based letter base digits isBase nonempty inside =>
      have unsigned : DecimalText.unsigned (Sign.appliedToText signs ('0' :: letter :: digits)) =
          '0' :: letter :: digits := by
        rw [Sign.appliedToText]
        cases Sign.negates signs <;> rfl
      change DecimalText.fault?
        (String.ofList (Sign.appliedToText signs ('0' :: letter :: digits))) ≠ none
      intro accepted
      have wellFormed : DecimalText.fault?
          (String.ofList (Sign.appliedToText signs ('0' :: letter :: digits))) ≠
            some .malformed := fun malformed => by
        rw [malformed] at accepted
        cases accepted
      rcases DecimalText.isWord_or_written wellFormed with word | ⟨decimal, equal⟩
      · rw [DecimalText.IsWord, String.toList_ofList, unsigned] at word
        have letters : ∀ word ∈ DecimalText.words, word.toList.head? ≠ some '0' := by decide
        exact letters _ word (by rw [String.toList_ofList]; rfl)
      · have spelled := WrittenDecimal.unsigned_text decimal
        rw [← String.ofList_injective equal, unsigned] at spelled
        have taken := Spelling.take?_text decimal.formed decimal.nonempty Token.apart_nil
        rw [← spelled, List.append_nil, Token.take?_based isBase, Option.some.injEq,
          Prod.mk.injEq] at taken
        exact List.cons_ne_nil _ _ taken.2

def IsDecimal : WrittenNumber → Prop
  | .decimal spelling formed nonempty _ => WrittenDecimal.Accepted ⟨none, spelling, formed, nonempty⟩
  | .based .. => False

def IsShortest (written : WrittenNumber) : Prop :=
  ∃ magnitude, written.double = .finite false magnitude ∧
    written.value = (magnitude.shortest .up).value

end WrittenNumber

namespace Constructor

def decimalTextOf (number : Double) (spelling : String) : String :=
  if DecimalText.fault? spelling = none then spelling else String.ofList number.shellText

theorem fault?_decimalTextOf (number : Double) (spelling : String) :
    DecimalText.fault? (decimalTextOf number spelling) = none := by
  rw [decimalTextOf]
  split
  · assumption
  · exact number.fault?_shellText

/-- A decimal is made of every number. -/
theorem build_decimal_number (call place : Position) (number : Double) (spelling : String) :
    decimal.build call [⟨.number number, place, some spelling⟩] =
      .ok (.decimal ⟨decimalTextOf number spelling, fault?_decimalTextOf number spelling⟩) := by
  have digits : decimalDigits ⟨.number number, place, some spelling⟩ =
      .ok (decimalTextOf number spelling) := by
    rw [decimalTextOf]
    simp only [decimalDigits, Option.filter_some]
    by_cases accepted : DecimalText.fault? spelling = none
    · rw [if_pos (decide_eq_true accepted), if_pos accepted]
    · rw [if_neg (by simpa using accepted), if_neg accepted]
  have parsed := DecimalText.parse_text
    ⟨decimalTextOf number spelling, fault?_decimalTextOf number spelling⟩
  simp only [build, List.getElem?_cons_zero, Option.getD_some, buildDecimal, digits, bind,
    Except.bind, parsed]

end Constructor

namespace Value

open DecimalText

def numberDecimalText (signs : List Sign) (written : WrittenNumber) : String :=
  Constructor.decimalTextOf (Sign.appliedToDouble signs written.double)
    (String.ofList (Sign.appliedToText signs written.text))

/-- What is read from the call with a number. -/
theorem ofShell_numberDecimal (limit : Nat) (signs : List Sign) (written : WrittenNumber) :
    (numberCallNeed signs ≤ limit ∧ ∃ digits : DecimalText,
      digits.text = numberDecimalText signs written ∧
        ofShell limit (numberCall .decimal signs written) = .ok (.decimal digits)) ∨
    (¬numberCallNeed signs ≤ limit ∧ ∃ failure,
      ofShell limit (numberCall .decimal signs written) = .error failure) := by
  rcases ofShell_numberCall .decimal signs written limit with
    ⟨room, position, place, equal⟩ | ⟨short, position, equal⟩
  · rw [Constructor.build_decimal_number] at equal
    exact .inl ⟨room, _, rfl, equal⟩
  · exact .inr ⟨short, _, equal⟩

theorem denotes_shellText_iff (signs : List Sign) (written : WrittenNumber) :
    Denotes (String.ofList (Sign.appliedToDouble signs written.double).shellText)
      (Sign.appliedAll signs written.value) ↔ written.IsShortest := by
  rw [WrittenNumber.IsShortest]
  -- A finite double is printed as a decimal that denotes it, an infinite one as a word.
  rcases written.unsigned_double with ⟨magnitude, double⟩ | double
  · have signed : Sign.appliedToDouble signs written.double =
        .finite (Sign.negates signs) magnitude := by
      rw [double, Sign.appliedToDouble]
      cases Sign.negates signs <;> rfl
    rcases Double.denotes_shellText (Sign.negates signs) magnitude with ⟨decimal, _, text, value⟩
    rw [signed, text, denotes_iff, value, Sign.appliedAll_eq, double]
    constructor
    · intro equal
      refine ⟨magnitude, rfl, ?_⟩
      cases negative : Sign.negates signs with
      | false => simpa [negative] using equal.symm
      | true => simpa [negative] using equal.symm
    · rintro ⟨other, same, equal⟩
      cases same
      rw [equal]
  · have word (negative : Bool) : IsWord (String.ofList (Double.infinity negative).shellText) := by
      cases negative <;> decide
    refine iff_of_false (fun denotes => denotes.not_isWord ?_) ?_
    · rw [double, Sign.appliedToDouble]
      cases Sign.negates signs with
      | false => exact word false
      | true => exact word true
    · rintro ⟨magnitude, equal, _⟩
      rw [double] at equal
      cases equal

/-- Whether the decimal that is made of a number is the number. -/
theorem denotes_numberDecimalText_iff (signs : List Sign) (written : WrittenNumber) :
    Denotes (numberDecimalText signs written) (Sign.appliedAll signs written.value) ↔
      written.IsDecimal ∨ written.IsShortest := by
  have other := denotes_shellText_iff signs written
  rw [numberDecimalText, Constructor.decimalTextOf]
  cases found : written.decimal? signs with
  | some decimal =>
      rcases WrittenNumber.text_of_decimal? found with ⟨text, value⟩
      have accepted : written.IsDecimal ↔ decimal.Accepted := by
        cases written with
        | decimal spelling formed nonempty leading =>
            cases found
            rfl
        | based => cases found
      rw [text, accepted]
      rcases decimal.fault?_text with ⟨none, kept⟩ | ⟨fault, refused⟩
      · rw [if_pos none]
        exact iff_of_true ⟨decimal, rfl, value⟩ (.inl kept)
      · rw [if_neg (fault ▸ Option.some_ne_none _), other, or_iff_right refused]
  | none =>
      have based : ¬written.IsDecimal := by
        cases written with
        | decimal => cases found
        | based => exact id
      rw [if_neg (WrittenNumber.fault?_based found), other, or_iff_right based]

def IsExactDecimal (signs : List Sign) (written : WrittenNumber) (value : Value) : Prop :=
  ∃ digits : DecimalText, value = .decimal digits ∧
    Denotes digits.text (Sign.appliedAll signs written.value)

theorem isExactDecimal_iff {signs : List Sign} {written : WrittenNumber} {digits : DecimalText}
    (text : digits.text = numberDecimalText signs written) :
    IsExactDecimal signs written (.decimal digits) ↔ written.IsDecimal ∨ written.IsShortest := by
  rw [← denotes_numberDecimalText_iff signs, ← text]
  constructor
  · rintro ⟨other, equal, denotes⟩
    cases equal
    exact denotes
  · exact fun denotes => ⟨digits, rfl, denotes⟩

/-- Decimals that are made from numbers are exact, for just the numbers that are accepted
as decimals themselves or are the shortest decimals of their doubles. No other number
is refused either. -/
theorem ofShell_numberDecimal_exact_iff (limit : Nat) (signs : List Sign)
    (written : WrittenNumber) :
    ((∀ value, ofShell limit (numberCall .decimal signs written) = .ok value →
      IsExactDecimal signs written value) ↔
        (numberCallNeed signs ≤ limit → written.IsDecimal ∨ written.IsShortest)) ∧
    ((∃ value, ofShell limit (numberCall .decimal signs written) = .ok value) ↔
      numberCallNeed signs ≤ limit) := by
  rcases ofShell_numberDecimal limit signs written with
    ⟨room, digits, text, read⟩ | ⟨short, failure, failed⟩
  · rw [read, ← isExactDecimal_iff text]
    refine ⟨⟨fun exact _ => exact _ rfl, ?_⟩, iff_of_true ⟨_, rfl⟩ room⟩
    rintro exact value ⟨⟩
    exact exact room
  · rw [failed]
    refine ⟨iff_of_true nofun fun room => absurd room short, iff_of_false ?_ short⟩
    rintro ⟨value, ⟨⟩⟩

/-- A number with a digit that neither a double nor a decimal keeps. -/
def oneAndLittle : WrittenNumber :=
  .decimal ⟨['1'], some (List.replicate 33 '0' ++ ['1']), none⟩
    ⟨List.all_eq_true.mp rfl, fun _ member => Option.some.inj member ▸ List.all_eq_true.mp rfl,
      nofun⟩ (by decide) nofun

theorem not_isDecimal_oneAndLittle : ¬oneAndLittle.IsDecimal := by
  intro kept
  have short : Text.natOfDigits (['1'] ++ (List.replicate 33 '0' ++ ['1'])) < 10 ^ digitLimit :=
    kept.1
  exact absurd short (by decide)

theorem not_isShortest_oneAndLittle : ¬oneAndLittle.IsShortest := by
  rintro ⟨magnitude, double, value⟩
  have one : oneAndLittle.double = .finite false
      ⟨2 ^ 52, 1022, by decide, by decide, .inr (by decide)⟩ := by decide +kernel
  have same := (Double.finite.inj (one.symm.trans double)).2
  have shortest : magnitude.shortest .up = ⟨['1'], 1⟩ := by
    rw [← same]
    decide +kernel
  have little : Text.natOfDigits (['1'] ++ (List.replicate 33 '0' ++ ['1'])) = 10 ^ 34 + 1 := by
    decide
  have unit : Text.natOfDigits ['1'] = 1 := rfl
  rw [shortest, Decimal.value, unit] at value
  change ((Text.natOfDigits (['1'] ++ (List.replicate 33 '0' ++ ['1'])) : ℕ) : ℚ) *
    10 ^ ((0 : ℤ) - (34 : ℕ)) = _ at value
  rw [little] at value
  norm_num at value

/-- The digits of `1` take the place of the number. -/
theorem not_ofShell_numberDecimal_exact :
    ¬∀ (signs : List Sign) (written : WrittenNumber) (value : Value),
      ofShell defaultLimit (numberCall .decimal signs written) = .ok value →
        IsExactDecimal signs written value := by
  intro exact
  rcases ofShell_numberDecimal defaultLimit [] oneAndLittle with
    ⟨_, digits, text, read⟩ | ⟨short, _⟩
  · exact ((isExactDecimal_iff text).mp (exact [] _ _ read)).elim not_isDecimal_oneAndLittle
      not_isShortest_oneAndLittle
  · exact short (by decide)

end Value

end DocShell
