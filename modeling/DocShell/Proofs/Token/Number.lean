import DocShell.Proofs.Number.Based
import DocShell.Proofs.Number.Exact
import DocShell.Proofs.Token.Parts

namespace DocShell

/-! # Numbers as shell text writes them

A number is decimal, or stands behind a prefix that tells its base. Digits may be missing
on one side of the point, and no zero stands in front of other digits. -/

inductive WrittenNumber
  | decimal (spelling : Spelling) (formed : spelling.Formed)
      (nonempty : spelling.numeral.digits ≠ [])
      (leading : spelling.whole.head? = some '0' → spelling.whole = ['0'])
  | based (letter : Char) (base : Nat) (digits : List Char)
      (isBase : Token.base? letter = some base) (nonempty : digits ≠ [])
      (inside : ∀ digit ∈ digits, (Text.digitIn? base digit).isSome = true)

namespace WrittenNumber

def text : WrittenNumber → List Char
  | .decimal spelling _ _ _ => spelling.text
  | .based letter _ digits _ _ _ => '0' :: letter :: digits

def value : WrittenNumber → ℚ
  | .decimal spelling _ _ _ => spelling.numeral.value
  | .based _ base digits _ _ _ => Text.natInBase base digits

def double : WrittenNumber → Double
  | .decimal spelling _ _ _ => spelling.numeral.toDouble false
  | .based _ base digits _ _ _ => Token.basedValue base digits

def literal (written : WrittenNumber) : NumberLiteral :=
  ⟨written.double, String.ofList written.text⟩

end WrittenNumber

namespace Token

theorem two_le_of_base? {letter : Char} {base : Nat} (isBase : base? letter = some base) :
    2 ≤ base := by
  unfold base? at isBase
  grind

theorem toNat_lt_of_hexValue? {digit : Char} (found : (Text.hexValue? digit).isSome = true) :
    digit.toNat < 128 := by
  unfold Text.hexValue? at found
  split at found
  · rename_i isDigit
    exact Text.toNat_lt_of_isDigit isDigit
  split at found
  · rename_i letter
    have bound : digit.toNat ≤ 102 := letter.2
    omega
  split at found
  · rename_i letter
    have bound : digit.toNat ≤ 70 := letter.2
    omega
  · cases found

theorem isWordPart_of_digitIn? {base : Nat} {digit : Char}
    (found : (Text.digitIn? base digit).isSome = true) : Text.isWordPart digit = true := by
  rcases Option.isSome_iff_exists.mp found with ⟨value, found⟩
  have read := Option.isSome_of_eq_some (Option.filter_eq_some_iff.mp found).1
  exact Text.forall_ascii
    (fun digit => (Text.hexValue? digit).isSome = true → Text.isWordPart digit = true)
    (by decide +kernel) (toNat_lt_of_hexValue? read) read

/-! ## Numbers in other bases -/

section

variable {letter : Char} {base : Nat} {digits : List Char} (isBase : base? letter = some base)
  (nonempty : digits ≠ []) (inside : ∀ digit ∈ digits, (Text.digitIn? base digit).isSome = true)
  {rest : List Char} (apart : Apart rest)

include isBase nonempty inside apart

theorem basedLength_based :
    basedLength ('0' :: letter :: (digits ++ rest)) = digits.length + 2 := by
  have leaves : Text.Leaves (fun digit => (Text.digitIn? base digit).isSome) rest :=
    apart.word.of_imp fun _ => isWordPart_of_digitIn?
  simp only [basedLength, isBase, Text.takeWhile_run inside leaves, nonempty, if_false]

omit nonempty inside apart in
/-- The letter of a base belongs to no decimal. -/
theorem take?_based (rest : List Char) :
    Numeral.take? ('0' :: letter :: rest) = some (⟨['0'], [], 0⟩, letter :: rest) := by
  have letters := mem_of_base? isBase
  simp only [List.mem_cons, List.not_mem_nil, or_false] at letters
  rcases letters with rfl | rfl | rfl | rfl | rfl | rfl <;> rfl

omit nonempty in
theorem brokenLength_based :
    brokenLength ('0' :: letter :: (digits ++ rest)) = digits.length + 2 := by
  have parts : Numeral.takeDigits ('0' :: letter :: (digits ++ rest)) =
      (['0'], letter :: (digits ++ rest)) ∧
      Numeral.takeFraction (letter :: (digits ++ rest)) = ([], letter :: (digits ++ rest)) ∧
      Text.isWordStart letter = true := by
    have letters := mem_of_base? isBase
    simp only [List.mem_cons, List.not_mem_nil, or_false] at letters
    rcases letters with rfl | rfl | rfl | rfl | rfl | rfl <;> exact ⟨rfl, rfl, by decide⟩
  have word := Text.takeWhile_run
    (fun digit member => isWordPart_of_digitIn? (inside digit member)) apart.word
  rw [brokenLength, parts.1]
  simp only [parts.2.1, Text.wordLength, parts.2.2, if_true, word]
  simp
  omega

theorem number_based :
    number ('0' :: letter :: (digits ++ rest)) =
      .ok (⟨basedValue base digits, String.ofList ('0' :: letter :: digits)⟩,
        digits.length + 2) := by
  have based := basedLength_based isBase nonempty inside apart
  have broken := brokenLength_based isBase inside apart
  have taken := take?_based isBase (digits ++ rest)
  have decimal : decimalLength ('0' :: letter :: (digits ++ rest)) = 1 := by
    rw [decimalLength, taken]
    simp
  have front : ('0' :: letter :: (digits ++ rest)).take (digits.length + 2) =
      '0' :: letter :: digits := by simp
  rw [number, based, broken, decimal]
  simp only
  rw [if_neg (by omega), if_pos (by omega), front]
  simp [isBase]

end

end Token

namespace WrittenNumber

open Token

theorem number_text (written : WrittenNumber) {rest : List Char} (apart : Apart rest) :
    number (written.text ++ rest) = .ok (written.literal, written.text.length) := by
  cases written with
  | decimal spelling formed nonempty leading =>
      have found := number_of_take? (Spelling.take?_text formed nonempty apart) apart leading
      rwa [List.length_append, Nat.add_sub_cancel, List.take_left] at found
  | based letter base digits isBase nonempty inside =>
      exact number_based isBase nonempty inside apart

theorem exists_start (written : WrittenNumber) (rest : List Char) :
    ∃ first more, written.text = first :: more ∧ StartsNumber first (more ++ rest) := by
  cases written with
  | decimal spelling formed nonempty leading =>
      have whole := formed.wholeDigits
      have fraction := formed.fractionDigits
      rcases spelling with ⟨_ | ⟨first, more⟩, _ | _ | ⟨digit, digits⟩, exponent⟩
      · exact absurd rfl nonempty
      · exact absurd rfl nonempty
      · exact ⟨'.', _, rfl, .inr ⟨rfl, fraction _ rfl digit List.mem_cons_self⟩⟩
      all_goals exact ⟨first, _, rfl, .inl (whole first List.mem_cons_self)⟩
  | based letter base digits isBase nonempty inside => exact ⟨'0', _, rfl, .inl rfl⟩

/-- A number is one token. -/
theorem spells (written : WrittenNumber) {rest : List Char} (apart : Apart rest) :
    Spells written.text [.number written.literal] rest := by
  rcases written.exists_start rest with ⟨first, more, equal, starts⟩
  have found := written.number_text apart
  rw [equal] at found ⊢
  exact spells_number starts found

end WrittenNumber

theorem WrittenNumber.unsigned_double (written : WrittenNumber) : written.double.Unsigned := by
  cases written with
  | decimal spelling => exact Double.unsigned_ofDecimal _ _
  | based letter base digits isBase =>
      exact (Token.follows_basedValue (Token.two_le_of_base? isBase) digits).unsigned

/-! ## Signs -/

theorem Token.spells_signs (signs : List Sign) {text : List Char} {lexemes : List Lexeme}
    {rest : List Char} (behind : Spells text lexemes rest) :
    Spells (signs.map Sign.character ++ text) (signs.map (.mark ·.mark) ++ lexemes) rest := by
  induction signs with
  | nil => exact behind
  | cons sign signs induction =>
      cases sign with
      | plus => exact (spells_mark (show Mark.plus ≠ .dot by decide) _).cons induction
      | minus => exact (spells_mark (show Mark.minus ≠ .dot by decide) _).cons induction

end DocShell
