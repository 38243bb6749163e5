import DocShell.Proofs.Value.NumberCall

namespace DocShell

/-! # Long integers from numbers

A long integer is made from the double of a number, which may have been rounded already.
Only plain digits are looked at again. Therefore a number with a fraction, an exponent or a
prefix can be taken for a whole number that it is not. -/

namespace Double

theorem toExactInt?_neg (number : Double) :
    number.neg.toExactInt? = number.toExactInt?.map (- ·) := by
  cases number with
  | finite negative magnitude =>
      have opposite : truncated (!negative) magnitude = -truncated negative magnitude := by
        cases negative with
        | false => rfl
        | true => exact (Int.neg_neg _).symm
      rw [neg, toExactInt?, toExactInt?, toInt?, toInt?, opposite]
      split
      · rw [Option.filter_some, Option.filter_some, Int.natAbs_neg]
        split <;> rfl
      · rfl
  | infinity negative => rfl
  | nan => rfl

theorem fitsLong_of_toExactInt? {number : Double} {whole : Int}
    (found : number.toExactInt? = some whole) : FitsLong whole := by
  have small := natAbs_le_of_toExactInt? found
  rw [exactLimit] at small
  rw [FitsLong]
  omega

/-- A number whose digits are appended one by one is taken for another whole number only
right behind the exact ones, where it is rounded to the last of them. -/
theorem Follows.toExactInt?_ne_iff {number : ℕ} {double : Double}
    (follows : Follows number double) :
    (∃ whole, double.toExactInt? = some whole ∧ (whole : ℚ) ≠ number) ↔
      number = exactLimit + 1 := by
  cases follows with
  | exact small equal =>
      refine iff_of_false ?_ (by omega)
      rintro ⟨whole, read, other⟩
      have exact : (ofInt number).toExactInt? = _ := toExactInt?_ofInt small
      rw [equal, exact] at read
      cases read
      exact other rfl
  | rounded next equal =>
      refine iff_of_true ⟨exactLimit, ?_, ?_⟩ next
      · rw [equal, toExactInt?_ofInt (Nat.le_refl _)]
      · rw [next]
        push_cast
        exact (lt_add_one _).ne
  | beyond large beyond =>
      refine iff_of_false ?_ (by omega)
      rintro ⟨whole, read, _⟩
      rw [beyond.toExactInt?] at read
      cases read

end Double

namespace Sign

def appliedToInt (signs : List Sign) (whole : ℤ) : ℤ := if negates signs then -whole else whole

theorem toExactInt?_appliedToDouble (signs : List Sign) (number : Double) :
    (appliedToDouble signs number).toExactInt? = number.toExactInt?.map (appliedToInt signs) := by
  rw [appliedToDouble]
  cases negative : negates signs with
  | true =>
      rw [if_pos rfl, Double.toExactInt?_neg]
      congr 1
      funext whole
      rw [appliedToInt, negative, if_pos rfl]
  | false =>
      have same : appliedToInt signs = id := by
        funext whole
        rw [appliedToInt, negative, if_neg Bool.false_ne_true]
        rfl
      rw [if_neg Bool.false_ne_true, same, Option.map_id_apply]

theorem appliedToInt_eq_iff {signs : List Sign} {whole : ℤ} {value : ℚ} :
    ((appliedToInt signs whole : ℤ) : ℚ) = appliedAll signs value ↔ (whole : ℚ) = value := by
  rw [appliedToInt, appliedAll_eq]
  cases negates signs with
  | true => simp
  | false => simp

end Sign

namespace WrittenNumber

def plain? : WrittenNumber → Option ℕ
  | .decimal ⟨whole, none, none⟩ _ _ _ => some (Text.natOfDigits whole)
  | _ => none

theorem value_of_plain? {written : WrittenNumber} {whole : ℕ} (plain : written.plain? = some whole) :
    written.value = whole ∧ written.double = Double.ofInt whole := by
  rcases written with ⟨⟨digits, _ | _, _ | _⟩, _, _, _⟩ | _ <;> cases plain
  have exact : Numeral.value ⟨digits, [], 0⟩ = (Text.natOfDigits digits : ℕ) := by
    simp [Numeral.value, Numeral.digits]
  exact ⟨exact, Numeral.toDouble_of_value_eq exact⟩

def ofNat (whole : ℕ) : WrittenNumber :=
  .decimal (.ofNat whole) (Spelling.sound_ofNat whole).toFormed
    (Spelling.sound_ofNat whole).digits_ne_nil
    (Spelling.sound_ofNat whole).leading

theorem text_ofNat (whole : ℕ) : (ofNat whole).text = Text.ofNat whole :=
  Spelling.text_ofNat whole

theorem double_ofNat (whole : ℕ) : (ofNat whole).double = Double.ofInt whole := by
  have plain : (ofNat whole).plain? = some whole := congrArg some (Text.natOfDigits_ofNat whole)
  exact (value_of_plain? plain).2

theorem nat?_eq_none {text : List Char} (other : Char) (member : other ∈ text)
    (noDigit : other.isDigit = false) : Text.nat? text = none := by
  rw [Text.nat?, if_neg]
  rintro ⟨_, all⟩
  rw [List.all_eq_true.mp all other member] at noDigit
  cases noDigit

/-- Digits alone are a whole number in text, and nothing else that is written is. -/
theorem nat?_text (written : WrittenNumber) : Text.nat? written.text = written.plain? := by
  rcases written with ⟨⟨whole, _ | fraction, _ | exponent⟩, formed, nonempty, leading⟩ |
    ⟨letter, base, digits, isBase, nonempty, inside⟩
  · have nonempty : whole ≠ [] := by
      rintro rfl
      exact nonempty rfl
    change Text.nat? (whole ++ []) = some (Text.natOfDigits whole)
    rw [List.append_nil, Text.nat?_of_digits nonempty formed.wholeDigits]
  · refine nat?_eq_none exponent.mark ?_ ?_
    · exact List.mem_append_right _ (List.mem_append_right _ List.mem_cons_self)
    · rcases (formed.exponentSound exponent rfl).isMark with mark | mark <;> exact mark ▸ rfl
  · exact nat?_eq_none '.' (List.mem_append_right _ List.mem_cons_self) rfl
  · exact nat?_eq_none '.' (List.mem_append_right _ List.mem_cons_self) rfl
  · refine nat?_eq_none letter (List.mem_cons_of_mem _ List.mem_cons_self) ?_
    have letters := Token.mem_of_base? isBase
    simp only [List.mem_cons, List.not_mem_nil, or_false] at letters
    rcases letters with rfl | rfl | rfl | rfl | rfl | rfl <;> rfl

theorem int?_text (signs : List Sign) (written : WrittenNumber) :
    Text.int? (Sign.appliedToText signs written.text) =
      written.plain?.map fun whole : ℕ => Sign.appliedToInt signs whole := by
  rw [← nat?_text]
  unfold Sign.appliedToInt
  rw [Sign.appliedToText]
  cases Sign.negates signs with
  | true => rfl
  | false =>
      have first := written.exists_start []
      rcases first with ⟨first, more, equal, starts⟩
      rw [equal, if_neg Bool.false_ne_true, Text.int?]
      · rfl
      · rintro behind ⟨⟩
        exact starts.elim (fun digit => absurd digit (by decide)) fun point =>
          absurd point.1 (by decide)
      · rintro behind ⟨⟩
        exact starts.elim (fun digit => absurd digit (by decide)) fun point =>
          absurd point.1 (by decide)

/-- Whether the number is written in digits alone and is too large for a double. -/
theorem exceedsExact_text (signs : List Sign) (written : WrittenNumber) :
    Constructor.exceedsExact (some (String.ofList (Sign.appliedToText signs written.text))) = true ↔
      ∃ whole, written.plain? = some whole ∧ Double.exactLimit < whole := by
  rw [Constructor.exceedsExact, Option.bind_some, String.toList_ofList, int?_text]
  cases written.plain? with
  | none => simp
  | some whole =>
      have size : (Sign.appliedToInt signs whole).natAbs = whole := by
        rw [Sign.appliedToInt]
        split <;> omega
      simp [size]

/-- The double of the number is a whole number that the number itself is not, and the
number is not written in digits alone. -/
def Slips : WrittenNumber → Prop
  | .decimal spelling _ _ _ => (spelling.fraction ≠ none ∨ spelling.exponent ≠ none) ∧
      ∃ whole, (spelling.numeral.toDouble false).toExactInt? = some whole ∧
        spelling.numeral.value ≠ whole
  | .based _ base digits _ _ _ => Text.natInBase base digits = Double.exactLimit + 1

/-- Digits alone are exact if they are few enough. -/
theorem not_slips_of_plain? {written : WrittenNumber} {number : ℕ}
    (plain : written.plain? = some number) : ¬ written.Slips := by
  rcases written with ⟨⟨digits, _ | _, _ | _⟩, _, _, _⟩ | _ <;> cases plain
  exact fun slips => slips.1.elim (absurd rfl) (absurd rfl)

theorem eq_value_of_plain? {written : WrittenNumber} {number : ℕ} {whole : ℤ}
    (plain : written.plain? = some number) (small : number ≤ Double.exactLimit)
    (read : written.double.toExactInt? = some whole) : (whole : ℚ) = written.value := by
  rcases value_of_plain? plain with ⟨value, double⟩
  have exact : (Double.ofInt number).toExactInt? = _ := Double.toExactInt?_ofInt small
  rw [double, exact] at read
  cases read
  exact value.symm

/-- The long integer that a number is taken for can only be another one if the number
slips. -/
theorem slips_iff {written : WrittenNumber} :
    written.Slips ↔ (∀ whole, written.plain? = some whole → whole ≤ Double.exactLimit) ∧
      ∃ whole, written.double.toExactInt? = some whole ∧ (whole : ℚ) ≠ written.value := by
  cases plain : written.plain? with
  | some number =>
      refine iff_of_false (not_slips_of_plain? plain) ?_
      rintro ⟨small, whole, read, other⟩
      exact other (eq_value_of_plain? plain (small _ rfl) read)
  | none =>
      rw [and_iff_right nofun]
      rcases written with ⟨spelling, formed, nonempty, leading⟩ |
        ⟨letter, base, digits, isBase, nonempty, inside⟩
      · have marked : spelling.fraction ≠ none ∨ spelling.exponent ≠ none := by
          rcases spelling with ⟨digits, _ | _, _ | _⟩
          · cases plain
          all_goals simp
        rw [Slips, and_iff_right marked]
        exact exists_congr fun whole => and_congr_right' ne_comm
      · have follows := Token.follows_basedValue (Token.two_le_of_base? isBase) digits
        exact follows.toExactInt?_ne_iff.symm

end WrittenNumber

namespace Constructor

/-- A long integer is made of a number if its double is a whole number that doubles tell
from its neighbours, unless the text of the number says otherwise. -/
theorem build_long_number {call place : Position} {number : Double} {spelling : String}
    {value : Value} :
    long.build call [⟨.number number, place, some spelling⟩] = .ok value ↔
      ¬exceedsExact (some spelling) = true ∧ ∃ whole fits, number.toExactInt? = some whole ∧
        value = .long (LongText.ofInt whole fits) := by
  change longOfNumber ⟨.number number, place, some spelling⟩ number = .ok value ↔ _
  simp only [longOfNumber]
  cases read : number.toExactInt? with
  | none =>
      refine iff_of_false (fun accepted => ?_) ?_
      · split at accepted
        · cases accepted
        split at accepted <;> cases accepted
      · rintro ⟨_, whole, fits, found, _⟩
        cases found
  | some whole =>
      have fits := Double.fitsLong_of_toExactInt? read
      have integer : number.toInt? ≠ none := by
        rw [(Option.filter_eq_some_iff.mp read).1]
        exact Option.some_ne_none _
      rw [if_neg (fun fraction => integer fraction.2)]
      split
      · rename_i exceeds
        exact iff_of_false nofun fun accepted => accepted.1 exceeds
      · rename_i within
        simp only [fits, dite_true]
        constructor
        · intro accepted
          cases accepted
          exact ⟨within, whole, fits, rfl, rfl⟩
        · rintro ⟨_, other, _, found, rfl⟩
          cases found
          rfl

end Constructor

namespace Value

/-- What is read from the call with a number. -/
theorem ofShell_numberLong {signs : List Sign} {written : WrittenNumber} {limit : Nat}
    {value : Value} :
    ofShell limit (numberCall .long signs written) = .ok value ↔
      numberCallNeed signs ≤ limit ∧
        (∀ whole, written.plain? = some whole → whole ≤ Double.exactLimit) ∧
        ∃ whole fits, written.double.toExactInt? = some whole ∧
          value = .long (LongText.ofInt (Sign.appliedToInt signs whole) fits) := by
  have plain : (∀ whole, written.plain? = some whole → whole ≤ Double.exactLimit) ↔
      ¬Constructor.exceedsExact
        (some (String.ofList (Sign.appliedToText signs written.text))) = true := by
    rw [WrittenNumber.exceedsExact_text]
    push Not
    rfl
  rcases ofShell_numberCall .long signs written limit with
    ⟨room, position, place, equal⟩ | ⟨short, position, equal⟩
  · rw [equal, plain]
    constructor
    · intro accepted
      cases made : Constructor.long.build position
          [⟨.number (Sign.appliedToDouble signs written.double), place,
            some (String.ofList (Sign.appliedToText signs written.text))⟩] with
      | error failure =>
          rw [made] at accepted
          cases accepted
      | ok built =>
          rw [made] at accepted
          rcases Constructor.build_long_number.mp made with ⟨within, whole, fits, read, rfl⟩
          cases accepted
          rw [Sign.toExactInt?_appliedToDouble] at read
          rcases Option.map_eq_some_iff.mp read with ⟨unsigned, found, rfl⟩
          exact ⟨room, within, unsigned, fits, found, rfl⟩
    · rintro ⟨_, within, whole, fits, read, rfl⟩
      have signed := Sign.toExactInt?_appliedToDouble signs written.double
      rw [read] at signed
      rw [Constructor.build_long_number.mpr ⟨within, _, fits, signed, rfl⟩]
      rfl
  · rw [equal]
    exact iff_of_false nofun fun accepted => short accepted.1

def IsExactLong (signs : List Sign) (written : WrittenNumber) (value : Value) : Prop :=
  ∃ digits : LongText, value = .long digits ∧
    (digits.value : ℚ) = Sign.appliedAll signs written.value

theorem exists_inexact_of_slips {limit : Nat} {signs : List Sign} {written : WrittenNumber}
    (room : numberCallNeed signs ≤ limit) (slips : written.Slips) :
    ∃ value, ofShell limit (numberCall .long signs written) = .ok value ∧
      ¬IsExactLong signs written value := by
  rcases WrittenNumber.slips_iff.mp slips with ⟨within, whole, read, other⟩
  have signed := Sign.toExactInt?_appliedToDouble signs written.double
  rw [read] at signed
  have fits := Double.fitsLong_of_toExactInt? signed
  refine ⟨_, ofShell_numberLong.mpr ⟨room, within, whole, fits, read, rfl⟩, ?_⟩
  rintro ⟨digits, equal, value⟩
  cases equal
  rw [LongText.value_ofInt] at value
  exact other (Sign.appliedToInt_eq_iff.mp value)

/-- Long integers that are made from numbers are exact, for just the numbers that do not
slip. -/
theorem ofShell_numberLong_exact_iff (limit : Nat) (signs : List Sign) (written : WrittenNumber) :
    (∀ value, ofShell limit (numberCall .long signs written) = .ok value →
      IsExactLong signs written value) ↔ (numberCallNeed signs ≤ limit → ¬written.Slips) := by
  constructor
  · intro exact room slips
    rcases exists_inexact_of_slips room slips with ⟨value, read, other⟩
    exact other (exact value read)
  · intro kept value accepted
    rcases ofShell_numberLong.mp accepted with ⟨room, within, whole, fits, read, rfl⟩
    refine ⟨_, rfl, ?_⟩
    rw [LongText.value_ofInt, Sign.appliedToInt_eq_iff]
    by_contra other
    exact kept room (WrittenNumber.slips_iff.mpr ⟨within, whole, read, other⟩)

/-- The number `2 ^ 53 + 1` in hexadecimal is read as the long integer below it. -/
theorem not_ofShell_numberLong_exact :
    ¬∀ (signs : List Sign) (written : WrittenNumber) (value : Value),
      ofShell defaultLimit (numberCall .long signs written) = .ok value →
        IsExactLong signs written value := by
  intro exact
  let written : WrittenNumber :=
    .based 'x' 16 "20000000000001".toList rfl (by decide) (List.all_eq_true.mp rfl)
  have slips : written.Slips := by
    change Text.natInBase 16 "20000000000001".toList = Double.exactLimit + 1
    decide
  have room : numberCallNeed [] ≤ defaultLimit := by decide
  rcases exists_inexact_of_slips room slips with ⟨value, read, other⟩
  exact other (exact [] written value read)

end Value

end DocShell
