import DocShell.Expr.Basic
import DocShell.Proofs.Number.Value
import DocShell.Proofs.Text.Runs
import DocShell.Token.Scan

namespace DocShell

/-! # Spellings of numbers

A number is written as digits, a fraction and an exponent, the latter two only if they
are needed. Text of this form is read back as one numeral, wherever it is followed by
something that cannot belong to a number. -/

def Sign.character : Sign → Char
  | .plus => '+'
  | .minus => '-'

def Sign.mark : Sign → Mark
  | .plus => .plus
  | .minus => .minus

structure ExponentSpelling where
  mark : Char
  sign : Option Sign
  digits : List Char

namespace ExponentSpelling

def text (exponent : ExponentSpelling) : List Char :=
  exponent.mark :: ((exponent.sign.map Sign.character).toList ++ exponent.digits)

def power (exponent : ExponentSpelling) : Int :=
  if exponent.sign = some .minus then -(Text.natOfDigits exponent.digits : Int)
  else Text.natOfDigits exponent.digits

structure Sound (exponent : ExponentSpelling) : Prop where
  isMark : exponent.mark = 'e' ∨ exponent.mark = 'E'
  nonempty : exponent.digits ≠ []
  allDigits : ∀ digit ∈ exponent.digits, digit.isDigit = true

def ofInt (power : Int) : ExponentSpelling :=
  ⟨'e', some (if power < 0 then .minus else .plus), Text.ofNat power.natAbs⟩

theorem sound_ofInt (power : Int) : (ofInt power).Sound :=
  ⟨.inl rfl, Text.ofNat_ne_nil _, fun _ => Text.isDigit_of_mem_ofNat⟩

theorem power_ofInt (power : Int) : (ofInt power).power = power := by
  by_cases negative : power < 0
  · simp only [ExponentSpelling.power, ofInt, negative, if_true, Text.natOfDigits_ofNat]
    omega
  · simp only [ExponentSpelling.power, ofInt, negative, if_false, Text.natOfDigits_ofNat]
    rw [if_neg (by simp)]
    omega

theorem text_ofInt (power : Int) :
    (ofInt power).text = 'e' :: (if power < 0 then '-' else '+') :: Text.ofNat power.natAbs := by
  by_cases negative : power < 0 <;> simp [text, ofInt, negative, Sign.character]

end ExponentSpelling

structure Spelling where
  whole : List Char
  fraction : Option (List Char)
  exponent : Option ExponentSpelling

namespace Spelling

def fractionText (spelling : Spelling) : List Char :=
  match spelling.fraction with
  | none => []
  | some digits => '.' :: digits

def exponentText (spelling : Spelling) : List Char :=
  match spelling.exponent with
  | none => []
  | some exponent => exponent.text

def text (spelling : Spelling) : List Char :=
  spelling.whole ++ (spelling.fractionText ++ spelling.exponentText)

def numeral (spelling : Spelling) : Numeral :=
  ⟨spelling.whole, spelling.fraction.getD [], (spelling.exponent.map (·.power)).getD 0⟩

structure Formed (spelling : Spelling) : Prop where
  wholeDigits : ∀ digit ∈ spelling.whole, digit.isDigit = true
  fractionDigits : ∀ digits ∈ spelling.fraction, ∀ digit ∈ digits, digit.isDigit = true
  exponentSound : ∀ exponent ∈ spelling.exponent, exponent.Sound

/-- There are digits before the point, and no zero stands in front of others. -/
structure Sound (spelling : Spelling) : Prop extends Formed spelling where
  nonempty : spelling.whole ≠ []
  leading : spelling.whole.head? = some '0' → spelling.whole = ['0']

theorem Sound.digits_ne_nil {spelling : Spelling} (sound : spelling.Sound) :
    spelling.numeral.digits ≠ [] :=
  fun empty => sound.nonempty (List.append_eq_nil_iff.mp empty).1

end Spelling

/-! ## Reading back -/

namespace Token

/-- What may stand behind a number, a word or a regular expression without being
taken for a part of it. -/
def Apart (rest : List Char) : Prop :=
  Text.Leaves (fun character => Text.isOptionPart character || character = '.') rest

theorem apart_nil : Apart [] := Text.leaves_nil _

theorem Apart.options {rest : List Char} (apart : Apart rest) :
    Text.Leaves Text.isOptionPart rest := by
  refine apart.of_imp fun character inside => ?_
  rw [inside, Bool.true_or]

theorem Apart.word {rest : List Char} (apart : Apart rest) : Text.Leaves Text.isWordPart rest := by
  refine apart.options.of_imp fun character inside => ?_
  rw [Text.isOptionPart, inside, Bool.true_or, Bool.true_or]

theorem Apart.digits {rest : List Char} (apart : Apart rest) : Text.Leaves Char.isDigit rest :=
  apart.word.of_imp fun _ => Text.isWordPart_of_isDigit

theorem Apart.wordLength {rest : List Char} (apart : Apart rest) : Text.wordLength rest = 0 := by
  cases rest with
  | nil => rfl
  | cons first rest =>
      have outside := apart.word first rfl
      rw [Text.isWordPart, Bool.or_eq_false_iff] at outside
      simp [Text.wordLength, outside.1]

theorem Apart.ne_dot {first : Char} {rest : List Char} (apart : Apart (first :: rest)) :
    first ≠ '.' := by
  have outside := apart first rfl
  rw [Bool.or_eq_false_iff, decide_eq_false_iff_not] at outside
  exact outside.2

end Token

namespace Numeral

theorem takeDigits_run {digits rest : List Char}
    (inside : ∀ digit ∈ digits, digit.isDigit = true) (leaves : Text.Leaves Char.isDigit rest) :
    takeDigits (digits ++ rest) = (digits, rest) := by
  rw [takeDigits, Text.takeWhile_run inside leaves, Text.dropWhile_run inside leaves]

theorem takeExponent_eq_none {rest : List Char} (apart : Token.Apart rest) :
    takeExponent rest = none := by
  cases rest with
  | nil => rfl
  | cons first rest =>
      have outside := apart.word first rfl
      unfold takeExponent
      split
      · rename_i equal
        cases equal
        exact absurd outside (by decide)
      · rename_i equal
        cases equal
        exact absurd outside (by decide)
      · rfl

theorem takeFraction_of_apart {rest : List Char} (apart : Token.Apart rest) :
    takeFraction rest = ([], rest) := by
  unfold takeFraction
  split
  · exact absurd rfl apart.ne_dot
  · rfl

theorem takeExponentDigits_spelled {exponent : ExponentSpelling} (sound : exponent.Sound)
    {rest : List Char} (apart : Token.Apart rest) :
    takeExponentDigits ((exponent.sign.map Sign.character).toList ++ exponent.digits ++ rest) =
      some (exponent.power, rest) := by
  have taken := takeDigits_run sound.allDigits apart.digits
  have digits := sound.allDigits
  have nonempty := sound.nonempty
  rcases exponent with ⟨mark, _ | _ | _, _ | ⟨first, more⟩⟩
  all_goals try exact absurd rfl nonempty
  · -- without a sign the first digit is none
    have isDigit := digits first List.mem_cons_self
    change takeExponentDigits (first :: more ++ rest) = _
    rw [takeExponentDigits]
    · simp only [taken]
      rfl
    all_goals
      rintro behind equal
      cases equal
      exact absurd isDigit (by decide)
  · change takeExponentDigits ('+' :: (first :: more ++ rest)) = _
    simp only [takeExponentDigits, taken]
    rfl
  · change takeExponentDigits ('-' :: (first :: more ++ rest)) = _
    simp only [takeExponentDigits, taken]
    rfl

theorem takeExponent_text {exponent : ExponentSpelling} (sound : exponent.Sound)
    {rest : List Char} (apart : Token.Apart rest) :
    takeExponent (exponent.text ++ rest) = some (exponent.power, rest) := by
  have digits := takeExponentDigits_spelled sound apart
  rw [ExponentSpelling.text, List.cons_append]
  rcases sound.isMark with mark | mark
  · rw [mark, takeExponent, digits]
  · rw [mark, takeExponent, digits]

theorem whole_takeTail (whole text : List Char) : (takeTail whole text).1.whole = whole := by
  unfold takeTail
  generalize takeFraction text = found
  rcases found with ⟨digits, behind⟩
  simp only
  split <;> rfl

/-- A numeral with digits before its point begins with one, and takes at least that. -/
theorem exists_digit_of_take? {text rest : List Char} {numeral : Numeral}
    (taken : take? text = some (numeral, rest)) (nonempty : numeral.whole ≠ []) :
    ∃ digit more, text = digit :: more ++ rest ∧ digit.isDigit = true := by
  have parts := takeDigits_append text
  have digits : ∀ digit ∈ (takeDigits text).1, digit.isDigit = true :=
    List.all_eq_true.mp List.all_takeWhile
  rw [take?] at taken
  generalize takeDigits text = found at taken parts digits
  rcases found with ⟨whole, behind⟩
  have suffix := (suffix_takeTail whole behind).trans (suffix_takeFraction behind)
  simp only at taken parts digits
  split at taken
  · cases taken
  cases taken
  rw [whole_takeTail] at nonempty
  rcases suffix with ⟨front, equal⟩
  rcases whole with _ | ⟨digit, more⟩
  · exact absurd rfl nonempty
  · refine ⟨digit, more ++ front, ?_, digits digit List.mem_cons_self⟩
    rw [← parts, List.cons_append, List.cons_append, List.append_assoc, equal]

end Numeral

namespace Spelling

variable {spelling : Spelling} {rest : List Char}

theorem leaves_exponentText (formed : spelling.Formed) (apart : Token.Apart rest) :
    Text.Leaves Char.isDigit (spelling.exponentText ++ rest) := by
  have sound := formed.exponentSound
  rcases spelling with ⟨whole, fraction, _ | exponent⟩
  · exact apart.digits
  · refine Text.leaves_cons ?_ _
    rcases (sound exponent rfl).isMark with mark | mark <;>
      exact mark ▸ by decide

theorem leaves_tail (formed : spelling.Formed) (apart : Token.Apart rest) :
    Text.Leaves Char.isDigit (spelling.fractionText ++ (spelling.exponentText ++ rest)) := by
  have exponent := leaves_exponentText formed apart
  rcases spelling with ⟨whole, _ | digits, exponent⟩
  · exact exponent
  · exact Text.leaves_cons (by decide) _

theorem takeFraction_mark {mark : Char} (isMark : mark = 'e' ∨ mark = 'E') (rest : List Char) :
    Numeral.takeFraction (mark :: rest) = ([], mark :: rest) := by
  rcases isMark with rfl | rfl <;> rfl

theorem takeFraction_tail (formed : spelling.Formed) (apart : Token.Apart rest) :
    Numeral.takeFraction (spelling.fractionText ++ (spelling.exponentText ++ rest)) =
      (spelling.fraction.getD [], spelling.exponentText ++ rest) := by
  have leaves := leaves_exponentText formed apart
  have digits := formed.fractionDigits
  have sound := formed.exponentSound
  rcases spelling with ⟨whole, _ | fraction, _ | exponent⟩
  · exact Numeral.takeFraction_of_apart apart
  · exact takeFraction_mark (sound exponent rfl).isMark _
  · exact Numeral.takeDigits_run (digits fraction rfl) leaves
  · exact Numeral.takeDigits_run (digits fraction rfl) leaves

theorem takeTail_tail (formed : spelling.Formed) (apart : Token.Apart rest) :
    Numeral.takeTail spelling.whole (spelling.fractionText ++ (spelling.exponentText ++ rest)) =
      (spelling.numeral, rest) := by
  have sound := formed.exponentSound
  rw [Numeral.takeTail, takeFraction_tail formed apart]
  rcases spelling with ⟨whole, fraction, _ | exponent⟩
  · simp only [exponentText, List.nil_append, Numeral.takeExponent_eq_none apart]
    rfl
  · simp only [exponentText, Numeral.takeExponent_text (sound exponent rfl) apart]
    rfl

theorem take?_text (formed : spelling.Formed) (digits : spelling.numeral.digits ≠ [])
    (apart : Token.Apart rest) :
    Numeral.take? (spelling.text ++ rest) = some (spelling.numeral, rest) := by
  rw [Numeral.take?, text, List.append_assoc, List.append_assoc,
    Numeral.takeDigits_run formed.wholeDigits (leaves_tail formed apart)]
  simp only [takeTail_tail formed apart, digits, if_false]

end Spelling

/-! ## As a token

A numeral is one token if it stands apart from what follows: neither a number in another
base nor a number that runs into a word is longer. -/

namespace Token

/-- The part of a word that reaches into what stands apart is none. -/
theorem wordLength_append_le (front : List Char) {rest : List Char} (apart : Apart rest) :
    Text.wordLength (front ++ rest) ≤ front.length := by
  cases front with
  | nil => exact Nat.le_of_eq apart.wordLength
  | cons first more =>
      have inside : ((more ++ rest).takeWhile Text.isWordPart).length ≤ more.length := by
        rw [List.takeWhile_append]
        split
        · exact Nat.le_of_eq (by rw [Text.takeWhile_of_leaves apart.word, List.append_nil])
        · exact (List.takeWhile_prefix _).length_le
      rw [List.cons_append, Text.wordLength, List.length_cons]
      split
      · exact Nat.succ_le_succ inside
      · exact Nat.zero_le _

theorem mem_of_base? {letter : Char} {base : Nat} (found : base? letter = some base) :
    letter ∈ ['x', 'X', 'o', 'O', 'b', 'B'] := by
  unfold base? at found
  simp only [List.mem_cons, List.not_mem_nil, or_false]
  grind

section

variable {text rest : List Char} {numeral : Numeral}
  (taken : Numeral.take? text = some (numeral, rest)) (apart : Apart rest)

include taken apart

/-- The letter of another base would begin what stands apart. -/
theorem basedLength_eq_zero : basedLength text = 0 := by
  unfold basedLength
  split
  · rename_i letter behind
    cases found : base? letter with
    | none => rfl
    | some base =>
        have letters := mem_of_base? found
        simp only [List.mem_cons, List.not_mem_nil, or_false] at letters
        rcases letters with rfl | rfl | rfl | rfl | rfl | rfl
        all_goals
          cases taken
          exact absurd (apart.word _ rfl) (by decide)
  · rfl

theorem brokenLength_le : brokenLength text ≤ text.length - rest.length := by
  rw [Numeral.take?] at taken
  rw [brokenLength]
  have whole := (Numeral.suffix_takeDigits text).length_le
  generalize Numeral.takeDigits text = digits at taken whole ⊢
  rcases digits with ⟨digits, behind⟩
  have fraction := (Numeral.suffix_takeFraction behind).length_le
  have tail := Numeral.suffix_takeTail digits behind
  simp only at taken whole ⊢
  generalize Numeral.takeTail digits behind = found at taken tail
  split at taken
  · cases taken
  cases taken
  rcases tail with ⟨front, equal⟩
  have word := wordLength_append_le front apart
  rw [equal] at word
  have lengths := congrArg List.length equal
  rw [List.length_append] at lengths
  split
  · exact Nat.zero_le _
  · omega

theorem number_of_take? (leading : numeral.whole.head? = some '0' → numeral.whole = ['0']) :
    number text = .ok (⟨numeral.toDouble false,
      String.ofList (text.take (text.length - rest.length))⟩, text.length - rest.length) := by
  have broken := brokenLength_le taken apart
  have decimal : decimalLength text = text.length - rest.length := by
    rw [decimalLength, taken]
  have noZeros : ¬(numeral.whole.head? = some '0' ∧ numeral.whole ≠ ['0']) :=
    fun zeros => zeros.2 (leading zeros.1)
  rw [number, basedLength_eq_zero taken apart, decimal, taken]
  rw [if_neg (by omega), if_neg (Nat.not_lt_zero _)]
  exact if_neg noZeros

end

end Token

theorem Spelling.number_text {spelling : Spelling} {rest : List Char} (sound : spelling.Sound)
    (apart : Token.Apart rest) :
    Token.number (spelling.text ++ rest) =
      .ok (⟨spelling.numeral.toDouble false, String.ofList spelling.text⟩,
        spelling.text.length) := by
  have found := Token.number_of_take? (take?_text sound.toFormed sound.digits_ne_nil apart) apart
    sound.leading
  rwa [List.length_append, Nat.add_sub_cancel, List.take_left] at found

/-! ## The spelling of a magnitude -/

namespace Decimal

def positionalSpelling (decimal : Decimal) : Spelling :=
  if decimal.point ≤ 0 then
    ⟨['0'], some (List.replicate decimal.point.natAbs '0' ++ decimal.digits), none⟩
  else if decimal.point < decimal.digits.length then
    ⟨decimal.digits.take decimal.point.toNat, some (decimal.digits.drop decimal.point.toNat), none⟩
  else
    ⟨decimal.digits ++ List.replicate (decimal.point - decimal.digits.length).toNat '0', none,
      none⟩

def scientificSpelling (decimal : Decimal) : Spelling :=
  ⟨decimal.digits.take 1,
    if decimal.digits.drop 1 = [] then none else some (decimal.digits.drop 1),
    some (.ofInt (decimal.point - 1))⟩

theorem text_positionalSpelling (decimal : Decimal) :
    decimal.positionalSpelling.text = decimal.positional [] := by
  simp only [positionalSpelling, positional]
  split
  · simp [Spelling.text, Spelling.fractionText, Spelling.exponentText]
  · split <;> simp [Spelling.text, Spelling.fractionText, Spelling.exponentText]

theorem text_scientificSpelling (decimal : Decimal) :
    decimal.scientificSpelling.text = decimal.scientific := by
  rcases decimal with ⟨_ | ⟨digit, _ | ⟨second, more⟩⟩, point⟩ <;>
    simp [scientificSpelling, scientific, Spelling.text, Spelling.fractionText,
      Spelling.exponentText, ExponentSpelling.text_ofInt]

theorem value_positionalSpelling (decimal : Decimal) :
    decimal.positionalSpelling.numeral.value = decimal.value := by
  rcases decimal with ⟨digits, point⟩
  simp only [positionalSpelling, value, Numeral.value, Numeral.digits, Spelling.numeral]
  split
  · have number : Text.natOfDigits (['0'] ++ (List.replicate point.natAbs '0' ++ digits)) =
        Text.natOfDigits digits :=
      (Text.natOfDigits_zeros_append 1 _).trans (Text.natOfDigits_zeros_append _ _)
    simp only [Option.map_none, Option.getD_some, Option.getD_none, List.length_append,
      List.length_replicate]
    rw [number]
    congr 2
    omega
  · split
    · simp only [Option.map_none, Option.getD_some, Option.getD_none, List.take_append_drop,
        List.length_drop]
      congr 2
      omega
    · simp only [Option.map_none, Option.getD_none, List.append_nil, List.length_nil]
      rw [Text.natOfDigits_append_zeros, mul_pow_mul_zpow]
      congr 2
      omega

theorem value_scientificSpelling {decimal : Decimal} (nonempty : decimal.digits ≠ []) :
    decimal.scientificSpelling.numeral.value = decimal.value := by
  rcases decimal with ⟨_ | ⟨digit, rest⟩, point⟩
  · exact absurd rfl nonempty
  · have fraction : (if rest = [] then none else some rest).getD [] = rest := by
      split
      · rename_i empty
        exact empty.symm
      · rfl
    simp only [scientificSpelling, value, Numeral.value, Numeral.digits, Spelling.numeral,
      List.drop_one, List.tail_cons, fraction, List.take_succ_cons, List.take_zero,
      List.singleton_append, List.length_cons, Option.map_some, Option.getD_some,
      ExponentSpelling.power_ofInt]
    congr 2
    omega

theorem sound_positionalSpelling {decimal : Decimal} (sound : decimal.Sound) :
    decimal.positionalSpelling.Sound := by
  have digits := sound.allDigits
  have zeros (count : Nat) : ∀ digit ∈ List.replicate count '0', digit.isDigit = true := by
    intro digit member
    rw [List.eq_of_mem_replicate member]
    rfl
  have joined (count : Nat) : ∀ digit ∈ List.replicate count '0' ++ decimal.digits,
      digit.isDigit = true := fun digit member =>
    (List.mem_append.mp member).elim (zeros count digit) (digits digit)
  -- The point stands in front of the digits, among them, or behind them.
  unfold positionalSpelling
  split
  · refine ⟨⟨zeros 1, ?_, nofun⟩, List.cons_ne_nil _ _, fun _ => rfl⟩
    intro fraction member
    cases member
    exact joined _
  split
  · rename_i positive inside
    have whole : decimal.point.toNat ≠ 0 := by omega
    refine ⟨⟨fun digit member => digits digit (List.mem_of_mem_take member), ?_,
      nofun⟩, ?_, ?_⟩
    · intro fraction member digit inner
      cases member
      exact digits digit (List.mem_of_mem_drop inner)
    · exact fun empty => (List.take_eq_nil_iff.mp empty).elim whole sound.nonempty
    · intro leading
      rw [List.head?_take, if_neg whole] at leading
      rw [sound.leading leading] at inside
      exact absurd inside (by decide)
  · refine ⟨⟨?_, nofun, nofun⟩, ?_, ?_⟩
    · exact fun digit member => (List.mem_append.mp member).elim (digits digit) (zeros _ digit)
    · exact fun empty => sound.nonempty (List.append_eq_nil_iff.mp empty).1
    · intro leading
      rw [List.head?_append, List.head?_eq_some_head sound.nonempty, Option.some_or,
        ← List.head?_eq_some_head sound.nonempty] at leading
      rw [sound.leading leading]
      rfl

theorem sound_scientificSpelling {decimal : Decimal} (sound : decimal.Sound) :
    decimal.scientificSpelling.Sound := by
  have digits := sound.allDigits
  rcases decimal with ⟨_ | ⟨digit, rest⟩, point⟩
  · exact absurd rfl sound.nonempty
  refine ⟨⟨?_, ?_, ?_⟩, List.cons_ne_nil _ _, fun leading => ?_⟩
  · intro other member
    cases List.mem_singleton.mp member
    exact digits _ List.mem_cons_self
  · intro fraction member other inner
    simp only [scientificSpelling, List.drop_one, List.tail_cons] at member
    split at member
    · cases member
    · cases member
      exact digits other (List.mem_cons_of_mem _ inner)
  · intro exponent member
    cases member
    exact ExponentSpelling.sound_ofInt _
  · cases leading
    rfl

end Decimal

/-- Shell text spells every magnitude by its shortest decimal. -/
theorem NumberLayout.exists_spelling_shortest (magnitude : Magnitude) :
    ∃ spelling : Spelling, spelling.Sound ∧ NumberLayout.shell.write magnitude = spelling.text ∧
      spelling.numeral.value = (magnitude.shortest NumberLayout.shell.tie).value := by
  have sound := magnitude.sound_shortest NumberLayout.shell.tie
  simp only [NumberLayout.write]
  generalize magnitude.shortest NumberLayout.shell.tie = decimal at sound
  split
  · exact ⟨decimal.positionalSpelling, Decimal.sound_positionalSpelling sound,
      decimal.text_positionalSpelling.symm, decimal.value_positionalSpelling⟩
  · exact ⟨decimal.scientificSpelling, Decimal.sound_scientificSpelling sound,
      decimal.text_scientificSpelling.symm, Decimal.value_scientificSpelling sound.nonempty⟩

/-- What is spelled is read back as the magnitude. -/
theorem NumberLayout.exists_spelling_write (magnitude : Magnitude) :
    ∃ spelling : Spelling, spelling.Sound ∧ NumberLayout.shell.write magnitude = spelling.text ∧
      spelling.numeral.toDouble false = .finite false magnitude := by
  rcases exists_spelling_shortest magnitude with ⟨spelling, sound, text, value⟩
  refine ⟨spelling, sound, text, ?_⟩
  rw [Numeral.toDouble_eq_of_value value, magnitude.toDouble_shortest]

/-- A written magnitude is one token, which denotes it. -/
theorem Token.number_write (magnitude : Magnitude) {rest : List Char} (apart : Apart rest) :
    number (NumberLayout.shell.write magnitude ++ rest) =
      .ok (⟨.finite false magnitude, String.ofList (NumberLayout.shell.write magnitude)⟩,
        (NumberLayout.shell.write magnitude).length) := by
  rcases NumberLayout.exists_spelling_write magnitude with ⟨spelling, sound, equal, double⟩
  rw [equal, Spelling.number_text sound apart, double]

end DocShell
