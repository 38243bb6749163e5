import DocShell.Proofs.Bridge.Neighbours
import DocShell.Proofs.Number.ReadBack
import DocShell.Proofs.Text.Quoted
import DocShell.Proofs.Text.Unescaped

namespace DocShell

/-! # Texts without line breaks

Whatever characters a value holds, none of its keys, strings, patterns and digits
writes a line break. The only ones in its text are those between the lines of
containers. -/

namespace Text

def Unbroken (text : List Char) : Prop := ∀ character ∈ text, character ≠ '\n' ∧ character ≠ '\r'

instance (text : List Char) : Decidable (Unbroken text) :=
  List.decidableBAll (fun character => character ≠ '\n' ∧ character ≠ '\r') text

theorem unbroken_nil : Unbroken [] := fun _ member => nomatch member

theorem unbroken_append {front back : List Char} (first : Unbroken front) (second : Unbroken back) :
    Unbroken (front ++ back) := by
  intro character member
  exact (List.mem_append.mp member).elim (first character) (second character)

theorem unbroken_cons {first : Char} {rest : List Char} (noFeed : first ≠ '\n')
    (noReturn : first ≠ '\r') (unbroken : Unbroken rest) : Unbroken (first :: rest) := by
  intro character member
  rcases List.mem_cons.mp member with rfl | inner
  · exact ⟨noFeed, noReturn⟩
  · exact unbroken character inner

/-- Line breaks are among the characters that have to be escaped. -/
theorem Unescaped.unbroken {text : List Char} (unescaped : Unescaped text) : Unbroken text := by
  intro character member
  have plain := unescaped character member
  constructor
  · rintro rfl
    exact absurd plain (by decide)
  · rintro rfl
    exact absurd plain (by decide)

theorem unbroken_hexText_small :
    ∀ code ∈ List.range 0x20, Unbroken (hexText 4 code) := by decide

theorem unbroken_escaped (character : Char) : Unbroken (escaped character) := by
  have form := escapedForm_escaped character
  generalize escaped character = spelling at form
  cases form with
  | plain noQuote noSlash noControl =>
      refine unbroken_cons ?_ ?_ unbroken_nil
      · rintro rfl
        exact noControl (by decide)
      · rintro rfl
        exact noControl (by decide)
  | self mark =>
      rcases mark with rfl | rfl
      · decide
      · decide
  | control letter short =>
      have letters : ∀ pair ∈ shortEscapes, Unbroken ['\\', pair.1] := by decide
      exact letters _ short
  | code small =>
      have digits := unbroken_hexText_small _ (List.mem_range.mpr small)
      exact unbroken_cons (by decide) (by decide) (unbroken_cons (by decide) (by decide) digits)

theorem unbroken_quoted (text : String) : Unbroken (quoted text) := by
  have inside : Unbroken (text.toList.flatMap escaped) := by
    intro character member
    rcases List.mem_flatMap.mp member with ⟨source, _, inner⟩
    exact unbroken_escaped source character inner
  exact unbroken_append (unbroken_cons (by decide) (by decide) inside) (by decide)

theorem unescaped_ofNat (number : Nat) : Unescaped (ofNat number) :=
  fun _ member => escaped_of_isDigit (isDigit_of_mem_ofNat member)

theorem unescaped_ofInt (number : Int) : Unescaped (ofInt number) := by
  unfold ofInt
  split
  · exact unescaped_cons (by decide) (unescaped_ofNat _)
  · exact unescaped_ofNat _

/-! ## Enclosed lists on one line -/

theorem unbroken_joined {separator : List Char} (between : Unbroken separator)
    {parts : List (List Char)} (each : ∀ part ∈ parts, Unbroken part) :
    Unbroken (joined separator parts) := by
  induction parts with
  | nil => exact unbroken_nil
  | cons part rest induction =>
      have later := induction fun other member => each other (List.mem_cons_of_mem _ member)
      have first := each part List.mem_cons_self
      cases rest with
      | nil => exact first
      | cons second rest => exact unbroken_append (unbroken_append first between) later

theorem unbroken_enclosed {opening closing : Char} (brackets : Unbroken [opening, closing])
    {padding : List Char} (padded : Unbroken padding) {parts : List (List Char)}
    (each : ∀ part ∈ parts, Unbroken part) :
    Unbroken (enclosed opening closing (.oneLine padding [',', ' ']) parts) := by
  have openingPlain := brackets opening List.mem_cons_self
  have closingPlain := brackets closing (List.mem_cons_of_mem _ List.mem_cons_self)
  unfold enclosed
  split
  · exact brackets
  · refine unbroken_append (unbroken_append (unbroken_append ?_ ?_) padded) ?_
    · exact unbroken_cons openingPlain.1 openingPlain.2 padded
    · have between : Unbroken [',', ' '] := by decide
      exact unbroken_joined between each
    · exact unbroken_cons closingPlain.1 closingPlain.2 unbroken_nil

end Text

open Text

namespace Spelling

theorem Formed.unescaped_text {spelling : Spelling} (formed : spelling.Formed) :
    Unescaped spelling.text := by
  rcases spelling with ⟨whole, fraction, exponent⟩
  have run {digits : List Char} (all : ∀ digit ∈ digits, digit.isDigit = true) :
      Unescaped digits := fun digit member => escaped_of_isDigit (all digit member)
  refine unescaped_append (run formed.wholeDigits) (unescaped_append ?_ ?_)
  · cases fraction with
    | none => exact fun _ member => nomatch member
    | some digits => exact unescaped_cons (by decide) (run (formed.fractionDigits digits rfl))
  · cases exponent with
    | none => exact fun _ member => nomatch member
    | some exponent =>
        rcases exponent with ⟨mark, sign, digits⟩
        have sound := formed.exponentSound _ rfl
        have isMark : escaped mark = [mark] := by
          have marks : mark = 'e' ∨ mark = 'E' := sound.isMark
          rcases marks with rfl | rfl
          · decide
          · decide
        have isSign : Unescaped (sign.map Sign.character).toList := by
          rcases sign with _ | _ | _
          · exact fun _ member => nomatch member
          · exact unescaped_cons (by decide) fun _ member => nomatch member
          · exact unescaped_cons (by decide) fun _ member => nomatch member
        exact unescaped_cons isMark (unescaped_append isSign (run sound.allDigits))

end Spelling

theorem NumberLayout.unescaped_write (magnitude : Magnitude) :
    Unescaped (shell.write magnitude) := by
  rcases exists_spelling_write magnitude with ⟨spelling, sound, equal, _⟩
  exact equal ▸ sound.toFormed.unescaped_text

theorem unbroken_minus (negative : Bool) {text : List Char} (unbroken : Unbroken text) :
    Unbroken (if negative then '-' :: text else text) := by
  cases negative with
  | false => exact unbroken
  | true => exact unbroken_cons (by decide) (by decide) unbroken

theorem Double.unbroken_shellText (number : Double) : Unbroken number.shellText := by
  cases number with
  | nan =>
      have word : Unbroken "NaN".toList := by decide
      exact word
  | infinity negative =>
      have word : Unbroken "Infinity".toList := by decide
      exact unbroken_minus negative word
  | finite negative magnitude =>
      exact unbroken_minus _ (NumberLayout.unescaped_write magnitude).unbroken

namespace Value

open Pattern

/-! ## Scalars and keys -/

theorem unbroken_writtenKey (key : String) : Unbroken (writtenKey key) := by
  unfold writtenKey
  split
  · rename_i bare
    rcases exists_of_isBareKey bare with ⟨first, rest, characters, begins, inside⟩
    have noBreak (character : Char) (plain : (character.isAlphanum || character = '_' ||
        character = '$') = true) : character ≠ '\n' ∧ character ≠ '\r' := by
      constructor
      · rintro rfl
        exact absurd plain (by decide)
      · rintro rfl
        exact absurd plain (by decide)
    have start : (first.isAlphanum || first = '_' || first = '$') = true := by
      simp only [Char.isAlphanum, Bool.or_eq_true] at begins ⊢
      exact begins.imp_left (Or.imp_left .inl)
    rw [characters]
    exact List.forall_mem_cons.mpr
      ⟨noBreak first start, fun character member => noBreak character (inside character member)⟩
  · exact unbroken_quoted key

theorem unbroken_call {name : String} (plain : Unbroken name.toList) {argument : List Char}
    (inside : Unbroken argument) : Unbroken (writtenCall name argument) := by
  have opened := unbroken_cons (by decide : '(' ≠ '\n') (by decide) inside
  exact unbroken_append (unbroken_append plain opened) (by decide)

theorem unbroken_inQuotes {text : List Char} (unescaped : Unescaped text) :
    Unbroken (inQuotes text) :=
  unbroken_append (unbroken_cons (by decide) (by decide) unescaped.unbroken) (by decide)

theorem unbroken_writtenSource (source : String) : Unbroken (writtenSource source) := by
  unfold writtenSource
  split
  · decide
  · exact fun _ member => noBreak_of_mem_escapedSource member

theorem unbroken_writtenDate (instant : Int) : Unbroken (writtenDate instant) := by
  cases written : Calendar.write? instant with
  | none =>
      simp only [writtenDate, written]
      exact unbroken_call (by decide) (unescaped_ofInt instant).unbroken
  | some text =>
      simp only [writtenDate, written]
      exact unbroken_call (by decide) (unbroken_inQuotes (unescaped_of_write? written))

theorem unbroken_literal {pattern : Pattern} (sound : pattern.Sound) :
    Unbroken ('/' :: writtenSource pattern.source ++ '/' :: pattern.options.toList) := by
  have letters : Unbroken optionLetters := by decide
  have options : Unbroken pattern.options.toList :=
    fun letter member => letters letter (sound.accepted.2.2 letter member)
  have front := unbroken_cons (by decide : '/' ≠ '\n') (by decide)
    (unbroken_writtenSource pattern.source)
  exact unbroken_append front (unbroken_cons (by decide) (by decide) options)

theorem unbroken_pair (whole : Nat) {second : List Char} (unbroken : Unbroken second) :
    Unbroken (ofNat whole ++ ',' :: ' ' :: second) :=
  unbroken_append (unescaped_ofNat whole).unbroken
    (unbroken_cons (by decide) (by decide) (unbroken_cons (by decide) (by decide) unbroken))

theorem unbroken_scalar {value : Value} (scalar : value.isContainer = false)
    (patterns : PatternHere Pattern.Sound value) (indent depth : Nat) :
    Unbroken (value.written indent depth) := by
  cases value with
  | absent => exact unbroken_nil
  | null =>
      have word : Unbroken "null".toList := by decide
      exact word
  | bool value =>
      have words : Unbroken "true".toList ∧ Unbroken "false".toList := by decide
      cases value with
      | false => exact words.2
      | true => exact words.1
  | number value => exact value.unbroken_shellText
  | string text => exact unbroken_quoted text
  | objectId identifier =>
      refine unbroken_call (by decide) (unbroken_inQuotes ?_)
      rw [ObjectId.hex, String.toList_ofList]
      exact unescaped_hexOfBytes identifier.bytes
  | int value => exact (unescaped_ofInt value.toInt).unbroken
  | long digits =>
      exact unbroken_call (by decide) (unbroken_inQuotes (unescaped_of_int? digits.reads))
  | decimal digits =>
      exact unbroken_call (by decide) (unbroken_inQuotes (unescaped_of_fault? digits.sound))
  | double value => exact value.unbroken_shellText
  | date instant => exact unbroken_writtenDate instant
  | regex pattern => exact unbroken_literal patterns
  | timestamp seconds increment =>
      exact unbroken_call (by decide) (unbroken_pair _ (unescaped_ofNat _).unbroken)
  | binary data => exact unbroken_call (by decide) (unbroken_pair _ (unbroken_quoted _))
  | array items => cases scalar
  | document fields => cases scalar

/-! ## Whole values on one line -/

theorem unbroken_of_mem_writtenItems {indent depth : Nat} {items : List Value}
    (each : ∀ item ∈ items, Unbroken (item.written indent depth)) :
    ∀ part ∈ writtenItems indent depth items, Unbroken part := by
  induction items with
  | nil => exact fun _ member => nomatch member
  | cons item rest induction =>
      rw [writtenItems, List.forall_mem_cons]
      refine ⟨?_, induction fun other member => each other (List.mem_cons_of_mem _ member)⟩
      split
      · decide
      · exact each item List.mem_cons_self

theorem unbroken_of_mem_writtenFields {indent depth : Nat} {fields : List (String × Value)}
    (each : ∀ field ∈ fields, Unbroken (field.2.written indent depth)) :
    ∀ part ∈ writtenFields indent depth fields, Unbroken part := by
  induction fields with
  | nil => exact fun _ member => nomatch member
  | cons field rest induction =>
      rcases field with ⟨name, value⟩
      have later := induction fun other member => each other (List.mem_cons_of_mem _ member)
      rw [writtenFields]
      split
      · exact later
      · rw [List.forall_mem_cons]
        refine ⟨unbroken_append (unbroken_writtenKey name) ?_, later⟩
        have inner := each (name, value) List.mem_cons_self
        exact unbroken_cons (by decide) (by decide) (unbroken_cons (by decide) (by decide) inner)

/-- The text of a value on one line is one line. -/
theorem unbroken_written {value : Value} (patterns : value.PatternsIn Pattern.Sound)
    (depth : Nat) : Unbroken (value.written 0 depth) := by
  induction value using Value.induction generalizing depth with
  | scalar value scalar => exact unbroken_scalar scalar patterns.here 0 depth
  | array items induction =>
      refine unbroken_enclosed (by decide) unbroken_nil (unbroken_of_mem_writtenItems ?_)
      exact fun item member =>
        induction item member ((everywhere_array.mp patterns).2 item member) (depth + 1)
  | document fields induction =>
      refine unbroken_enclosed (by decide) (by decide) (unbroken_of_mem_writtenFields ?_)
      exact fun field member =>
        induction field member ((everywhere_document.mp patterns).2 field member) (depth + 1)

end Value

end DocShell
