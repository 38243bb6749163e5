import DocShell.Proofs.Json.Outcome
import DocShell.Proofs.Number.Spelling

namespace DocShell.Json

/-! # Numbers of JSON

Behind its sign, a number of JSON is a spelling without superfluous zeros and with digits
behind its point. Where something comes next that may end a value, it is read to its end,
as an integer just if it has nothing but digits. -/

open Text

/-! ## Where values end -/

theorem eq_of_isBlank {character : Char} (blank : isBlank character = true) :
    character = ' ' ∨ character = '\t' ∨ character = '\n' ∨ character = '\r' := by
  simpa [isBlank, or_assoc] using blank

def Ends (rest : List Char) : Prop :=
  ∀ character ∈ rest.head?, isBlank character = true ∨ character = ',' ∨ character = ']' ∨
    character = '}'

theorem skipBlanks_cons {character : Char} (dark : isBlank character = false) (rest : List Char) :
    skipBlanks (character :: rest) = character :: rest := by
  rw [skipBlanks, List.dropWhile_cons_of_neg]
  rw [dark]
  exact Bool.false_ne_true

theorem ends_cons {character : Char} (mark : character = ',' ∨ character = ']' ∨ character = '}')
    (rest : List Char) : Ends (character :: rest) := by
  intro first member
  cases member
  exact .inr mark

theorem apart_of_ends {rest : List Char} (ends : Ends rest) : Token.Apart rest := by
  intro character first
  rcases ends character first with blank | rfl | rfl | rfl
  · rcases eq_of_isBlank blank with rfl | rfl | rfl | rfl <;> decide
  all_goals decide

/-! ## Numbers -/

theorem outcome_unsigned? (negative : Bool) (text : List Char) :
    outcome (unsigned? negative text) =
      let whole := (Numeral.takeDigits text).1
      let behind := (Numeral.takeDigits text).2
      let taken := Numeral.takeTail whole behind
      if whole = [] ∨ (whole.head? = some '0' ∧ whole ≠ ['0']) ∨
          (behind.head? = some '.' ∧ taken.1.fraction = []) ∨
          opensEmptyExponent (Numeral.takeFraction behind).2 then none
      else (if taken.2 = behind then ofDigits? negative whole
        else finite? (taken.1.toDouble negative)).map fun json => (json, taken.2) := by
  simp only [unsigned?]
  split
  · rename_i nonempty
    simp only [nonempty, false_or]
    split
    · rename_i zeros
      rw [if_pos (.inl zeros)]
      rfl
    rename_i noZeros
    split
    · rename_i unfilled
      rw [if_pos (.inr (.inl unfilled))]
      rfl
    rename_i filled
    split
    · rename_i opens
      rw [if_pos (.inr (.inr opens))]
      rfl
    · rename_i closes
      rw [if_neg (not_or.mpr ⟨noZeros, not_or.mpr ⟨filled, closes⟩⟩), outcome, Option.map_map]
      rfl
  · rename_i empty
    rw [if_pos (.inl (Classical.not_not.mp empty))]
    rfl

theorem not_opensEmptyExponent {spelling : Spelling} (formed : spelling.Formed)
    {rest : List Char} (apart : Token.Apart rest) :
    opensEmptyExponent (spelling.exponentText ++ rest) = false := by
  have sound := formed.exponentSound
  rcases spelling with ⟨whole, fraction, _ | exponent⟩
  · cases rest with
    | nil => rfl
    | cons first rest =>
        have outside := apart.word first rfl
        have noMark : first ≠ 'e' ∧ first ≠ 'E' := by
          constructor
          · rintro rfl
            exact absurd outside (by decide)
          · rintro rfl
            exact absurd outside (by decide)
        simp [opensEmptyExponent, Spelling.exponentText, noMark]
  · simp only [opensEmptyExponent, Spelling.exponentText,
      Numeral.takeExponent_text (sound exponent rfl) apart, Option.isNone_some, Bool.and_false]

/-- A spelling behind a sign is read to its end, as an integer just if it has nothing but
digits. -/
theorem outcome_unsigned?_text {spelling : Spelling} {rest : List Char} (negative : Bool)
    (sound : spelling.Sound) (filled : spelling.fraction ≠ some []) (apart : Token.Apart rest) :
    outcome (unsigned? negative (spelling.text ++ rest)) =
      (if spelling.fraction = none ∧ spelling.exponent = none then ofDigits? negative spelling.whole
        else finite? (spelling.numeral.toDouble negative)).map fun json => (json, rest) := by
  have digits : Numeral.takeDigits (spelling.text ++ rest) =
      (spelling.whole, spelling.fractionText ++ (spelling.exponentText ++ rest)) := by
    rw [Spelling.text, List.append_assoc, List.append_assoc]
    exact Numeral.takeDigits_run sound.wholeDigits (Spelling.leaves_tail sound.toFormed apart)
  have noZeros : ¬(spelling.whole.head? = some '0' ∧ spelling.whole ≠ ['0']) :=
    fun zeros => zeros.2 (sound.leading zeros.1)
  have marks := sound.exponentSound
  have complete : ¬((spelling.fractionText ++ (spelling.exponentText ++ rest)).head? = some '.' ∧
      spelling.numeral.fraction = []) := by
    rcases spelling with ⟨whole, _ | fraction, exponent⟩
    · rintro ⟨point, -⟩
      rcases exponent with _ | exponent
      · exact Bool.false_ne_true ((apart _ point).symm.trans (by decide))
      · have isPoint : exponent.mark = '.' := Option.some.inj point
        rcases (marks exponent rfl).isMark with mark | mark <;>
          exact absurd (mark.symm.trans isPoint) (by decide)
    · rintro ⟨-, empty⟩
      exact filled (congrArg some empty)
  have bare : rest = spelling.fractionText ++ (spelling.exponentText ++ rest) ↔
      spelling.fraction = none ∧ spelling.exponent = none := by
    rcases spelling with ⟨whole, _ | fraction, _ | exponent⟩
    · exact iff_of_true rfl ⟨rfl, rfl⟩
    all_goals
      refine iff_of_false (fun same => ?_) (by simp)
      have lengths := congrArg List.length same
      simp only [Spelling.fractionText, Spelling.exponentText, ExponentSpelling.text,
        List.length_append, List.length_cons] at lengths
      omega
  rw [outcome_unsigned?]
  simp only [digits, Spelling.takeTail_tail sound.toFormed apart,
    Spelling.takeFraction_tail sound.toFormed apart, not_opensEmptyExponent sound.toFormed apart,
    sound.nonempty, noZeros, complete, bare, or_self, Bool.false_eq_true, if_false]

theorem outcome_scalar?_minus (text : List Char) :
    outcome (scalar? ('-' :: text)) = outcome (unsigned? true text) :=
  outcome_widen _ _

theorem outcome_scalar?_digit {digit : Char} (isDigit : digit.isDigit = true) (text : List Char) :
    outcome (scalar? (digit :: text)) = outcome (unsigned? false (digit :: text)) := by
  rw [scalar?]
  all_goals
    intro rest equal
    cases equal
    exact absurd isDigit (by decide)

def ofSpelling? (negative : Bool) (spelling : Spelling) : Option Json :=
  if spelling.fraction = none ∧ spelling.exponent = none then ofDigits? negative spelling.whole
  else finite? (spelling.numeral.toDouble negative)

def signedText (negative : Bool) (spelling : Spelling) : List Char :=
  if negative then '-' :: spelling.text else spelling.text

theorem signedText_start (negative : Bool) {spelling : Spelling} (sound : spelling.Sound) :
    ∃ first more, signedText negative spelling = first :: more ∧ isBlank first = false ∧
      first ≠ ']' ∧ first ≠ '[' ∧ first ≠ '{' ∧
      ∀ rest, outcome (scalar? (first :: (more ++ rest))) =
        outcome (unsigned? negative (spelling.text ++ rest)) := by
  cases negative with
  | true =>
      exact ⟨'-', _, rfl, by decide, by decide, by decide, by decide,
        fun rest => outcome_scalar?_minus _⟩
  | false =>
      rcases whole : spelling.whole with _ | ⟨digit, more⟩
      · exact absurd whole sound.nonempty
      have text : spelling.text = digit :: (more ++ (spelling.fractionText ++ spelling.exponentText)) := by
        rw [Spelling.text, whole, List.cons_append]
      have isDigit := sound.wholeDigits digit (whole ▸ List.mem_cons_self)
      have outside : isBlank digit = false ∧ digit ≠ ']' ∧ digit ≠ '[' ∧ digit ≠ '{' :=
        Text.forall_ascii (fun digit => digit.isDigit = true →
          isBlank digit = false ∧ digit ≠ ']' ∧ digit ≠ '[' ∧ digit ≠ '{')
          (by decide +kernel) (Text.toNat_lt_of_isDigit isDigit) isDigit
      refine ⟨digit, _, text, outside.1, outside.2.1, outside.2.2.1, outside.2.2.2, fun rest => ?_⟩
      rw [text, List.cons_append, outcome_scalar?_digit isDigit]

/-- The text of a number with its sign is read to its end. -/
theorem outcome_value?_number (room : Nat) {spelling : Spelling} (negative : Bool)
    (sound : spelling.Sound) (filled : spelling.fraction ≠ some []) {rest : List Char}
    (ends : Ends rest) :
    outcome (value? room (signedText negative spelling ++ rest)) =
      (ofSpelling? negative spelling).map fun json => (json, rest) := by
  rcases signedText_start negative sound with
    ⟨first, more, text, dark, _, noArray, noObject, read⟩
  rw [text, List.cons_append, outcome_value?_scalar room (skipBlanks_cons dark _) noArray noObject,
    read, outcome_unsigned?_text negative sound filled (apart_of_ends ends), ofSpelling?]

end DocShell.Json
