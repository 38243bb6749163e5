import DocShell.Json.Reading
import DocShell.Proofs.Text.Runs
import DocShell.Text.Escape
import DocShell.Text.Quoted
import DocShell.Token.Scan

namespace DocShell

/-! # Quoted texts

What JSON admits between quotes is a run of spelled characters. Shell text admits more, and
takes each of these spellings for the same character: none of them ends the literal or runs
into the next one. What is written between quotes is a run of such spellings. -/

namespace Text

/-! ## Hexadecimal digits -/

theorem hexPrefix?_append {digits : List Char} {width : Nat} (length : digits.length = width)
    (rest : List Char) : hexPrefix? width (digits ++ rest) = natOfHex? digits := by
  have fits : width ≤ (digits ++ rest).length := by
    rw [List.length_append, length]
    exact Nat.le_add_right width _
  rw [hexPrefix?, if_pos fits, List.take_left' length]

theorem exists_of_hexPrefix? {width : Nat} {text : List Char} {code : Nat}
    (found : hexPrefix? width text = some code) :
    ∃ digits, digits.length = width ∧ natOfHex? digits = some code ∧
      text = digits ++ text.drop width := by
  rw [hexPrefix?] at found
  split at found
  · rename_i fits
    exact ⟨text.take width, List.length_take_of_le fits, found, (List.take_append_drop _ _).symm⟩
  · cases found

theorem isSome_hexValue?_of_natOfHex? {digits : List Char} {code : Nat}
    (number : natOfHex? digits = some code) :
    ∀ digit ∈ digits, (hexValue? digit).isSome = true := by
  rw [natOfHex?] at number
  generalize 0 = start at number
  induction digits generalizing start with
  | nil =>
      intro digit member
      cases member
  | cons first more induction =>
      rw [List.foldlM_cons] at number
      rcases Option.bind_eq_some_iff.mp number with ⟨next, value, later⟩
      rcases Option.map_eq_some_iff.mp value with ⟨size, found, _⟩
      intro digit member
      rcases List.mem_cons.mp member with rfl | inner
      · rw [found]
        rfl
      · exact induction next later digit inner

/-- Hexadecimal digits neither end a literal nor escape anything in it. -/
theorem plain_of_natOfHex? {digits : List Char} {code : Nat}
    (number : natOfHex? digits = some code) :
    ∀ digit ∈ digits, digit ≠ '"' ∧ digit ≠ '\\' ∧ digit ≠ '\n' ∧ digit ≠ '{' := by
  intro digit member
  have isDigit := isSome_hexValue?_of_natOfHex? number digit member
  refine ⟨?_, ?_, ?_, ?_⟩
  all_goals
    rintro rfl
    exact absurd isDigit (by decide)

/-! ## Spellings -/

inductive Spelled : Char → List Char → Prop
  | plain {character : Char} (noQuote : character ≠ '"') (noSlash : character ≠ '\\')
      (noControl : ¬character.toNat < 0x20) : Spelled character [character]
  | short {letter character : Char} (found : Json.shortEscape? letter = some character) :
      Spelled character ['\\', letter]
  | code {digits : List Char} {code : Nat} (width : digits.length = 4)
      (number : natOfHex? digits = some code) (noHigh : isHighSurrogate code = false)
      (noLow : isLowSurrogate code = false) :
      Spelled (Char.ofNat code) ('\\' :: 'u' :: digits)
  | pair {front back : List Char} {high low : Nat} (frontWidth : front.length = 4)
      (frontNumber : natOfHex? front = some high) (isHigh : isHighSurrogate high = true)
      (backWidth : back.length = 4) (backNumber : natOfHex? back = some low)
      (isLow : isLowSurrogate low = true) :
      Spelled (Char.ofNat (pairedCode high low)) ('\\' :: 'u' :: front ++ '\\' :: 'u' :: back)

theorem unicodePair_append (front back rest : List Char) :
    '\\' :: 'u' :: front ++ '\\' :: 'u' :: back ++ rest =
      '\\' :: 'u' :: (front ++ '\\' :: 'u' :: (back ++ rest)) := by
  rw [List.append_assoc]
  rfl

inductive SpelledText : List Char → List Char → Prop
  | nil : SpelledText [] []
  | cons {character : Char} {spelling text spelled : List Char}
      (first : Spelled character spelling) (later : SpelledText text spelled) :
      SpelledText (character :: text) (spelling ++ spelled)

/-! ## What is written -/

def shortEscapes : List (Char × Char) :=
  [('n', '\n'), ('r', '\r'), ('t', '\t'), ('b', '\x08'), ('f', '\x0c')]

inductive EscapedForm (character : Char) : List Char → Prop
  | plain (noQuote : character ≠ '"') (noSlash : character ≠ '\\')
      (noControl : ¬character.toNat < 0x20) : EscapedForm character [character]
  | self (mark : character = '"' ∨ character = '\\') : EscapedForm character ['\\', character]
  | control (letter : Char) (short : (letter, character) ∈ shortEscapes) :
      EscapedForm character ['\\', letter]
  | code (small : character.toNat < 0x20) :
      EscapedForm character ('\\' :: 'u' :: hexText 4 character.toNat)

theorem escapedForm_escaped (character : Char) : EscapedForm character (escaped character) := by
  unfold escaped
  split
  · rename_i equal
    subst equal
    exact .self (.inl rfl)
  split
  · rename_i equal
    subst equal
    exact .self (.inr rfl)
  split
  · rename_i equal
    subst equal
    exact .control 'n' (by decide)
  split
  · rename_i equal
    subst equal
    exact .control 'r' (by decide)
  split
  · rename_i equal
    subst equal
    exact .control 't' (by decide)
  split
  · rename_i equal
    subst equal
    exact .control 'b' (by decide)
  split
  · rename_i equal
    subst equal
    exact .control 'f' (by decide)
  split
  · rename_i small
    exact .code small
  · rename_i noQuote noSlash _ _ _ _ _ noControl
    exact .plain noQuote noSlash noControl

theorem natOfHex?_hexText_small :
    ∀ code ∈ List.range 0x20, natOfHex? (hexText 4 code) = some code := by decide

theorem not_surrogate_of_small {code : Nat} (small : code < 0x20) :
    isHighSurrogate code = false ∧ isLowSurrogate code = false := by
  simp only [isHighSurrogate, isLowSurrogate, Bool.and_eq_false_iff, decide_eq_false_iff_not]
  omega

theorem shortEscape?_of_mem_shortEscapes :
    ∀ pair ∈ shortEscapes, Json.shortEscape? pair.1 = some pair.2 := by decide

theorem spelled_escaped (character : Char) : Spelled character (escaped character) := by
  have form := escapedForm_escaped character
  generalize escaped character = spelling at form
  cases form with
  | plain noQuote noSlash noControl => exact .plain noQuote noSlash noControl
  | self mark =>
      rcases mark with rfl | rfl
      · exact .short rfl
      · exact .short rfl
  | control letter short => exact .short (shortEscape?_of_mem_shortEscapes _ short)
  | code small =>
      rcases not_surrogate_of_small small with ⟨noHigh, noLow⟩
      have spelled := Spelled.code (length_hexText 4 character.toNat)
        (natOfHex?_hexText_small _ (List.mem_range.mpr small)) noHigh noLow
      rwa [Char.ofNat_toNat] at spelled

theorem spelledText_flatMap_escaped (text : List Char) :
    SpelledText text (text.flatMap escaped) := by
  induction text with
  | nil => exact .nil
  | cons character rest induction =>
      rw [List.flatMap_cons]
      exact .cons (spelled_escaped character) induction

end Text

/-! ## What the spellings denote -/

namespace Escape

open Text

theorem decode_cons {character : Char} (plain : character ≠ '\\') (rest : List Char) :
    decode (character :: rest) = (decode rest).map (character :: ·) := by
  rw [decode]
  · cases decode rest <;> rfl
  all_goals
    intros
    contradiction

theorem codePoint_append {digits : List Char} {code : Nat} (width : digits.length = 4)
    (number : natOfHex? digits = some code) (rest : List Char) :
    codePoint (digits ++ rest) = .ok (code, 4) := by
  have plain := plain_of_natOfHex? number
  unfold codePoint
  split
  · rename_i behind equal
    cases digits with
    | nil => cases width
    | cons first more =>
        cases equal
        exact absurd rfl (plain '{' List.mem_cons_self).2.2.2
  · rw [hexPrefix?_append width, number]

theorem decode_control {letter character : Char} (found : control? letter = some character)
    (rest : List Char) : decode ('\\' :: letter :: rest) = (decode rest).map (character :: ·) := by
  rw [decode, found]
  · cases decode rest <;> rfl
  · rintro rfl
    cases found
  · rintro rfl
    cases found

theorem decode_mark {mark : Char} (isMark : mark = '"' ∨ mark = '\\' ∨ mark = '/')
    (rest : List Char) : decode ('\\' :: mark :: rest) = (decode rest).map (mark :: ·) := by
  rcases isMark with rfl | rfl | rfl
  all_goals
    rw [decode]
    · cases decode rest <;> rfl
    all_goals
      intro equal
      cases equal

/-- JSON knows no letter for a control character that shell text does not know. -/
theorem control?_of_shortEscape? {letter character : Char}
    (found : Json.shortEscape? letter = some character)
    (noMark : ¬(letter = '"' ∨ letter = '\\' ∨ letter = '/')) :
    control? letter = some character := by
  rw [Json.shortEscape?, if_neg noMark] at found
  unfold control?
  grind

theorem decode_short {letter character : Char} (found : Json.shortEscape? letter = some character)
    (rest : List Char) : decode ('\\' :: letter :: rest) = (decode rest).map (character :: ·) := by
  by_cases mark : letter = '"' ∨ letter = '\\' ∨ letter = '/'
  · rw [Json.shortEscape?, if_pos mark] at found
    cases found
    exact decode_mark mark rest
  · exact decode_control (control?_of_shortEscape? found mark) rest

theorem decode_spelled {character : Char} {spelling : List Char}
    (spelled : Spelled character spelling) (rest : List Char) :
    decode (spelling ++ rest) = (decode rest).map (character :: ·) := by
  cases spelled with
  | plain noQuote noSlash noControl => exact decode_cons noSlash rest
  | short found => exact decode_short found rest
  | @code digits code width number noHigh noLow =>
      rw [List.cons_append, List.cons_append, decode, codePoint_append width number]
      simp only [noHigh, noLow, List.drop_left' width]
      cases decode rest <;> rfl
  | @pair front back high low frontWidth frontNumber isHigh backWidth backNumber isLow =>
      have behind : (front ++ '\\' :: 'u' :: (back ++ rest)).drop 4 = '\\' :: 'u' :: (back ++ rest) :=
        List.drop_left' frontWidth
      rw [unicodePair_append, decode, codePoint_append frontWidth frontNumber]
      simp only [isHigh, if_true]
      split
      · rename_i second paired
        cases paired.symm.trans behind
        rw [codePoint_append backWidth backNumber]
        simp only [isLow, if_true, List.drop_left' backWidth]
        cases decode rest <;> rfl
      · rename_i unpaired
        exact (unpaired _ behind).elim

theorem decode_spelledText {text spelled : List Char} (each : SpelledText text spelled) :
    decode spelled = .ok text := by
  induction each with
  | nil => rw [decode]
  | cons first later induction =>
      rw [decode_spelled first, induction]
      rfl

end Escape

/-! ## Where quoted texts end -/

namespace Token

open Text

theorem closingQuote?_cons {quote character : Char} (noQuote : character ≠ quote)
    (noSlash : character ≠ '\\') (noBreak : character ≠ '\n') (rest : List Char) :
    closingQuote? quote (character :: rest) = (closingQuote? quote rest).map (· + 1) := by
  rw [closingQuote?, if_neg noQuote, if_neg noBreak]
  all_goals
    intros
    contradiction

theorem closingQuote?_plain {quote : Char} (run rest : List Char)
    (plain : ∀ character ∈ run, character ≠ quote ∧ character ≠ '\\' ∧ character ≠ '\n') :
    closingQuote? quote (run ++ rest) = (closingQuote? quote rest).map (· + run.length) := by
  induction run with
  | nil => simp
  | cons character run induction =>
      rcases plain character List.mem_cons_self with ⟨noQuote, noSlash, noBreak⟩
      rw [List.cons_append, closingQuote?_cons noQuote noSlash noBreak,
        induction fun other member => plain other (List.mem_cons_of_mem _ member), Option.map_map]
      rfl

theorem closingQuote?_unicode {digits : List Char} {code : Nat} (width : digits.length = 4)
    (number : natOfHex? digits = some code) (rest : List Char) :
    closingQuote? '"' ('\\' :: 'u' :: (digits ++ rest)) = (closingQuote? '"' rest).map (· + 6) := by
  have plain := plain_of_natOfHex? number
  rw [closingQuote?, closingQuote?_plain _ _ fun digit member =>
    have digit := plain digit member
    ⟨digit.1, digit.2.1, digit.2.2.1⟩, Option.map_map, width]
  rfl

theorem closingQuote?_spelled {character : Char} {spelling : List Char}
    (spelled : Spelled character spelling) (rest : List Char) :
    closingQuote? '"' (spelling ++ rest) =
      (closingQuote? '"' rest).map (· + spelling.length) := by
  cases spelled with
  | plain noQuote noSlash noControl =>
      refine closingQuote?_cons noQuote noSlash ?_ rest
      rintro rfl
      exact noControl (by decide)
  | short found => rfl
  | @code digits code width number noHigh noLow =>
      rw [List.cons_append, List.cons_append, closingQuote?_unicode width number]
      simp only [List.length_cons, width]
  | @pair front back high low frontWidth frontNumber isHigh backWidth backNumber isLow =>
      rw [unicodePair_append, closingQuote?_unicode frontWidth frontNumber,
        closingQuote?_unicode backWidth backNumber, Option.map_map]
      simp only [List.length_append, List.length_cons, frontWidth, backWidth]
      rfl

theorem closingQuote?_spelledText {text spelled : List Char} (each : SpelledText text spelled)
    (rest : List Char) : closingQuote? '"' (spelled ++ '"' :: rest) = some spelled.length := by
  induction each with
  | nil => rfl
  | cons first later induction =>
      rw [List.append_assoc, closingQuote?_spelled first, induction, Option.map_some,
        List.length_append, Nat.add_comm]

theorem quotation_spelledText {text spelled : List Char} (each : SpelledText text spelled)
    (rest : List Char) : quotation '"' (spelled ++ '"' :: rest) =
      .ok (.lexeme (.string (String.ofList text)), spelled.length + 1) := by
  rw [quotation, closingQuote?_spelledText each]
  simp only [List.take_left, Escape.decode_spelledText each]

end Token

end DocShell
