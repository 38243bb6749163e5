import DocShell.Proofs.Token.Spells
import DocShell.Value.Written

namespace DocShell

/-! # String literals

A string literal is a quote, a run of units, and the same quote again. A unit stands for one
character or for none, and there are many units for the same character. None of them ends the
literal, and none runs into the next one, save that a digit right behind `\0` would be taken
for part of an escape in base eight. So every literal is one token, and what it denotes is put
together from what its units denote. -/

namespace Text

/-! ## Units -/

/-- A code point as it stands behind `\u`: four hexadecimal digits, or any number of them in
braces. -/
inductive CodeSpelling (code : Nat)
  | four (digits : List Char) (width : digits.length = 4) (number : natOfHex? digits = some code)
  | braced (digits : List Char) (nonempty : digits ≠ []) (number : natOfHex? digits = some code)

def CodeSpelling.body {code : Nat} : CodeSpelling code → List Char
  | .four digits _ _ => digits
  | .braced digits _ _ => '{' :: digits ++ ['}']

def controlLetters : List (Char × Char) :=
  [('n', '\n'), ('t', '\t'), ('r', '\r'), ('b', '\x08'), ('f', '\x0c'), ('v', '\x0b')]

inductive StringUnit (quote : Char)
  | plain (character : Char) (noQuote : character ≠ quote) (noSlash : character ≠ '\\')
      (noFeed : character ≠ '\n')
  /-- Two hexadecimal digits behind `\x`. -/
  | byte (code : Nat) (digits : List Char) (width : digits.length = 2)
      (number : natOfHex? digits = some code)
  /-- A code point behind `\u` that is a character by itself. -/
  | codePoint (code : Nat) (spelling : CodeSpelling code) (valid : code.isValidChar)
  /-- Two halves of a character beyond U+FFFF, each behind a `\u` of its own. -/
  | pair (high low : Nat) (front : CodeSpelling high) (back : CodeSpelling low)
      (isHigh : isHighSurrogate high = true) (isLow : isLowSurrogate low = true)
  | control (letter character : Char) (known : (letter, character) ∈ controlLetters)
  /-- The null character, as `\0`. -/
  | null
  /-- A character that means no more behind a backslash than on its own. -/
  | self (character : Char) (noControl : ∀ pair ∈ controlLetters, pair.1 ≠ character)
      (noDigit : character.isDigit = false) (other : character ∉ ['x', 'u', '\n'])
  /-- A line feed behind a backslash, which is left out. -/
  | continuation

namespace StringUnit

variable {quote : Char}

def text : StringUnit quote → List Char
  | .plain character _ _ _ => [character]
  | .byte _ digits _ _ => '\\' :: 'x' :: digits
  | .codePoint _ spelling _ => '\\' :: 'u' :: spelling.body
  | .pair _ _ front back _ _ => '\\' :: 'u' :: (front.body ++ '\\' :: 'u' :: back.body)
  | .control letter _ _ => ['\\', letter]
  | .null => ['\\', '0']
  | .self character _ _ _ => ['\\', character]
  | .continuation => ['\\', '\n']

def denoted : StringUnit quote → List Char
  | .plain character _ _ _ => [character]
  | .byte code _ _ _ => [Char.ofNat code]
  | .codePoint code _ _ => [Char.ofNat code]
  | .pair high low _ _ _ _ => [Char.ofNat (pairedCode high low)]
  | .control _ character _ => [character]
  | .null => ['\x00']
  | .self character _ _ _ => [character]
  | .continuation => []

/-- Two halves denote the character with their code point, which lies beyond U+FFFF. -/
theorem exists_denoted_pair {high low : Nat} (front : CodeSpelling high) (back : CodeSpelling low)
    (isHigh : isHighSurrogate high = true) (isLow : isLowSurrogate low = true) :
    ∃ character, (pair high low front back isHigh isLow : StringUnit quote).denoted = [character] ∧
      character.toNat = pairedCode high low ∧ 0xFFFF < character.toNat := by
  have bounds := pairedCode_bounds isHigh isLow
  have valid : (pairedCode high low).isValidChar := .inr ⟨by omega, bounds.2⟩
  have code : (Char.ofNat (pairedCode high low)).toNat = pairedCode high low := by
    rw [Char.ofNat, dif_pos valid]
    rfl
  exact ⟨_, rfl, code, by omega⟩

def isPlainDigit : StringUnit quote → Bool
  | .plain character _ _ _ => character.isDigit
  | _ => false

/-- No digit stands right behind `\0`. -/
def Separate : List (StringUnit quote) → Prop
  | .null :: next :: rest => next.isPlainDigit = false ∧ Separate (next :: rest)
  | _ :: rest => Separate rest
  | [] => True

end StringUnit

end Text

structure StringLiteral where
  quote : Char
  isQuote : quote = '"' ∨ quote = '\''
  units : List (Text.StringUnit quote)
  separate : Text.StringUnit.Separate units

namespace StringLiteral

def body (literal : StringLiteral) : List Char := literal.units.flatMap Text.StringUnit.text

def text (literal : StringLiteral) : List Char :=
  literal.quote :: (literal.body ++ [literal.quote])

def value (literal : StringLiteral) : String :=
  String.ofList (literal.units.flatMap Text.StringUnit.denoted)

end StringLiteral

/-! ## What units denote -/

namespace Escape

open Text

theorem le_of_foldlM_hex {digits : List Char} {start value : Nat}
    (number : digits.foldlM (fun number digit => (hexValue? digit).map (16 * number + ·)) start =
      some value) : start ≤ value := by
  induction digits generalizing start with
  | nil => exact Nat.le_of_eq (Option.some.inj number)
  | cons digit digits induction =>
      rw [List.foldlM_cons] at number
      rcases Option.bind_eq_some_iff.mp number with ⟨next, read, later⟩
      rcases Option.map_eq_some_iff.mp read with ⟨size, _, rfl⟩
      have onward := induction later
      omega

/-- No number that is passed on the way to the code point is larger than that. -/
theorem bracedCode_digits {digits : List Char} {start count code : Nat}
    (number : digits.foldlM (fun number digit => (hexValue? digit).map (16 * number + ·)) start =
      some code) (fits : code ≤ 0x10FFFF) (enough : 1 < count + digits.length) (rest : List Char) :
    bracedCode start count (digits ++ '}' :: rest) = .ok (code, count + digits.length + 1) := by
  induction digits generalizing start count with
  | nil =>
      cases number
      have closing : hexValue? '}' = none := by decide
      rw [List.nil_append, bracedCode, closing]
      exact if_pos ⟨rfl, enough⟩
  | cons digit digits induction =>
      rw [List.foldlM_cons] at number
      rcases Option.bind_eq_some_iff.mp number with ⟨next, read, later⟩
      rcases Option.map_eq_some_iff.mp read with ⟨size, found, rfl⟩
      have bound := Nat.le_trans (le_of_foldlM_hex later) fits
      rw [List.length_cons, Nat.add_comm digits.length, ← Nat.add_assoc] at enough ⊢
      rw [List.cons_append, bracedCode, found]
      simp only [if_pos bound]
      exact induction later enough

theorem codePoint_body {code : Nat} (spelling : CodeSpelling code) (fits : code ≤ 0x10FFFF)
    (rest : List Char) : codePoint (spelling.body ++ rest) = .ok (code, spelling.body.length) := by
  cases spelling with
  | four digits width number =>
      rw [CodeSpelling.body, codePoint_append width number, width]
  | braced digits nonempty number =>
      have enough : 1 < 1 + digits.length := by
        have positive := List.length_pos_iff.mpr nonempty
        omega
      have read := bracedCode_digits number fits enough rest
      simp only [CodeSpelling.body, List.cons_append, List.append_assoc, List.nil_append, codePoint,
        read, List.length_cons, List.length_append, List.length_nil]
      rw [Nat.add_comm 1, Nat.add_assoc]

theorem control?_of_mem_controlLetters :
    ∀ pair ∈ controlLetters, control? pair.1 = some pair.2 := by decide

theorem control?_eq_none {character : Char}
    (noControl : ∀ pair ∈ controlLetters, pair.1 ≠ character) : control? character = none := by
  simp only [controlLetters, List.forall_mem_cons, List.not_mem_nil, false_implies, implies_true,
    and_true, ne_eq, eq_comm] at noControl
  simp only [control?, noControl, if_false]

theorem decode_byte {digits : List Char} {code : Nat} (width : digits.length = 2)
    (number : natOfHex? digits = some code) (rest : List Char) :
    decode ('\\' :: 'x' :: (digits ++ rest)) = (decode rest).map (Char.ofNat code :: ·) := by
  rw [decode, hexPrefix?_append width, number]
  simp only [List.drop_left' width]
  cases decode rest <;> rfl

theorem isValidChar_bounds {code : Nat} (valid : code.isValidChar) :
    code ≤ 0x10FFFF ∧ isHighSurrogate code = false ∧ isLowSurrogate code = false := by
  simp only [Nat.isValidChar] at valid
  simp only [isHighSurrogate, isLowSurrogate, Bool.and_eq_false_iff, decide_eq_false_iff_not]
  omega

theorem decode_code {code : Nat} (spelling : CodeSpelling code) (valid : code.isValidChar)
    (rest : List Char) : decode ('\\' :: 'u' :: (spelling.body ++ rest)) =
      (decode rest).map (Char.ofNat code :: ·) := by
  rcases isValidChar_bounds valid with ⟨fits, noHigh, noLow⟩
  rw [decode, codePoint_body spelling fits]
  simp only [noHigh, noLow, List.drop_left]
  cases decode rest <;> rfl

theorem surrogate_le {code : Nat}
    (half : isHighSurrogate code = true ∨ isLowSurrogate code = true) : code ≤ 0x10FFFF := by
  simp only [isHighSurrogate, isLowSurrogate, Bool.and_eq_true, decide_eq_true_eq] at half
  omega

theorem decode_pair {high low : Nat} (front : CodeSpelling high) (back : CodeSpelling low)
    (isHigh : isHighSurrogate high = true) (isLow : isLowSurrogate low = true) (rest : List Char) :
    decode ('\\' :: 'u' :: (front.body ++ '\\' :: 'u' :: (back.body ++ rest))) =
      (decode rest).map (Char.ofNat (pairedCode high low) :: ·) := by
  have behind : (front.body ++ '\\' :: 'u' :: (back.body ++ rest)).drop front.body.length =
      '\\' :: 'u' :: (back.body ++ rest) := List.drop_left
  rw [decode, codePoint_body front (surrogate_le (.inl isHigh))]
  simp only [isHigh, if_true]
  split
  · rename_i second paired
    cases paired.symm.trans behind
    rw [codePoint_body back (surrogate_le (.inr isLow))]
    simp only [isLow, if_true, List.drop_left]
    cases decode rest <;> rfl
  · rename_i unpaired
    exact (unpaired _ behind).elim

theorem decode_null {rest : List Char} (noDigit : startsWithDigit rest = false) :
    decode ('\\' :: '0' :: rest) = (decode rest).map ('\x00' :: ·) := by
  have noControl : control? '0' = none := by decide
  rw [decode, noControl]
  · simp only [noDigit, Bool.not_false, and_self, if_true]
    cases decode rest <;> rfl
  all_goals
    intro equal
    cases equal

theorem decode_self {character : Char} (noControl : control? character = none)
    (noDigit : character.isDigit = false) (other : character ∉ ['x', 'u', '\n'])
    (rest : List Char) :
    decode ('\\' :: character :: rest) = (decode rest).map (character :: ·) := by
  simp only [List.mem_cons, List.not_mem_nil, or_false, not_or] at other
  rcases other with ⟨noByte, noCode, noFeed⟩
  have noZero : character ≠ '0' := by
    rintro rfl
    cases noDigit
  rw [decode, noControl]
  · simp only [noZero, false_and, noFeed, noDigit, if_false, Bool.false_eq_true]
    cases decode rest <;> rfl
  · exact noByte
  · exact noCode

theorem decode_continuation (rest : List Char) : decode ('\\' :: '\n' :: rest) = decode rest := by
  have noControl : control? '\n' = none := by decide
  rw [decode, noControl]
  · rfl
  all_goals
    intro equal
    cases equal

variable {quote : Char}

/-- A unit is read by itself, whatever stands behind it, unless that is a digit behind `\0`. -/
theorem decode_unit (unit : StringUnit quote) {rest : List Char}
    (apart : unit = .null → startsWithDigit rest = false) :
    decode (unit.text ++ rest) = (decode rest).map (unit.denoted ++ ·) := by
  cases unit with
  | plain character noQuote noSlash noFeed => exact decode_cons noSlash rest
  | byte code digits width number => exact decode_byte width number rest
  | codePoint code spelling valid => exact decode_code spelling valid rest
  | pair high low front back isHigh isLow =>
      rw [StringUnit.text, List.cons_append, List.cons_append, List.append_assoc,
        List.cons_append, List.cons_append]
      exact decode_pair front back isHigh isLow rest
  | control letter character known =>
      exact decode_control (control?_of_mem_controlLetters _ known) rest
  | null => exact decode_null (apart rfl)
  | self character noControl noDigit other =>
      exact decode_self (control?_eq_none noControl) noDigit other rest
  | continuation =>
      refine (decode_continuation rest).trans ?_
      cases decode rest <;> rfl

theorem startsWithDigit_unit (unit : StringUnit quote) (rest : List Char) :
    startsWithDigit (unit.text ++ rest) = unit.isPlainDigit := by
  cases unit <;> rfl

theorem decode_units {units : List (StringUnit quote)} (separate : StringUnit.Separate units) :
    decode (units.flatMap StringUnit.text) = .ok (units.flatMap StringUnit.denoted) := by
  induction units with
  | nil => rw [List.flatMap_nil, decode, List.flatMap_nil]
  | cons unit units induction =>
      have later : StringUnit.Separate units := by
        cases unit with
        | null => cases units with
          | nil => trivial
          | cons next more => exact separate.2
        | _ => exact separate
      have apart : unit = .null → startsWithDigit (units.flatMap StringUnit.text) = false := by
        rintro rfl
        cases units with
        | nil => rfl
        | cons next more => exact (startsWithDigit_unit next _).trans separate.1
      rw [List.flatMap_cons, List.flatMap_cons, decode_unit unit apart, induction later]
      rfl

end Escape

/-! ## Where literals end -/

namespace Token

open Text

variable {quote : Char}

theorem closingQuote?_escape (escaped : Char) (rest : List Char) :
    closingQuote? quote ('\\' :: escaped :: rest) = (closingQuote? quote rest).map (· + 2) := rfl

section

variable (isQuote : quote = '"' ∨ quote = '\'')

include isQuote

theorem ne_quote_of_hexValue? {digit : Char} (found : (hexValue? digit).isSome = true) :
    digit ≠ quote ∧ digit ≠ '\\' ∧ digit ≠ '\n' := by
  refine ⟨?_, ?_, ?_⟩
  · rintro rfl
    rcases isQuote with rfl | rfl <;> exact absurd found (by decide)
  · rintro rfl
    exact absurd found (by decide)
  · rintro rfl
    exact absurd found (by decide)

theorem closingQuote?_digits {digits : List Char} {code : Nat}
    (number : natOfHex? digits = some code) (rest : List Char) :
    closingQuote? quote (digits ++ rest) = (closingQuote? quote rest).map (· + digits.length) :=
  closingQuote?_plain _ _ fun digit member =>
    ne_quote_of_hexValue? isQuote (isSome_hexValue?_of_natOfHex? number digit member)

theorem closingQuote?_body {code : Nat} (spelling : CodeSpelling code) (rest : List Char) :
    closingQuote? quote (spelling.body ++ rest) =
      (closingQuote? quote rest).map (· + spelling.body.length) := by
  have braces (brace : Char) (isBrace : brace = '{' ∨ brace = '}') (rest : List Char) :
      closingQuote? quote (brace :: rest) = (closingQuote? quote rest).map (· + 1) := by
    have other : brace ≠ '"' ∧ brace ≠ '\'' ∧ brace ≠ '\\' ∧ brace ≠ '\n' := by
      rcases isBrace with rfl | rfl <;> decide
    have noQuote : brace ≠ quote := by
      rcases isQuote with rfl | rfl
      · exact other.1
      · exact other.2.1
    exact closingQuote?_cons noQuote other.2.2.1 other.2.2.2 rest
  cases spelling with
  | four digits width number => exact closingQuote?_digits isQuote number rest
  | braced digits nonempty number =>
      rw [CodeSpelling.body, List.cons_append, List.cons_append, List.append_assoc,
        List.singleton_append, braces '{' (.inl rfl), closingQuote?_digits isQuote number,
        braces '}' (.inr rfl)]
      cases closingQuote? quote rest with
      | none => rfl
      | some count => simp; omega

/-- No unit closes the literal, nor does it hide the quote that does. -/
theorem closingQuote?_unit (unit : StringUnit quote) (rest : List Char) :
    closingQuote? quote (unit.text ++ rest) =
      (closingQuote? quote rest).map (· + unit.text.length) := by
  cases unit with
  | plain character noQuote noSlash noFeed => exact closingQuote?_cons noQuote noSlash noFeed rest
  | byte code digits width number =>
      refine (closingQuote?_escape 'x' (digits ++ rest)).trans ?_
      rw [closingQuote?_digits isQuote number, Option.map_map]
      rfl
  | codePoint code spelling valid =>
      refine (closingQuote?_escape 'u' (spelling.body ++ rest)).trans ?_
      rw [closingQuote?_body isQuote spelling, Option.map_map]
      rfl
  | pair high low front back isHigh isLow =>
      rw [StringUnit.text, List.cons_append, List.cons_append, List.append_assoc]
      have second : closingQuote? quote ('\\' :: 'u' :: (back.body ++ rest)) =
          (closingQuote? quote (back.body ++ rest)).map (· + 2) := closingQuote?_escape 'u' _
      refine (closingQuote?_escape 'u' _).trans ?_
      rw [closingQuote?_body isQuote front, List.cons_append, List.cons_append, second,
        closingQuote?_body isQuote back]
      cases closingQuote? quote rest with
      | none => rfl
      | some count => simp; omega
  | control letter character known => exact closingQuote?_escape letter rest
  | null => exact closingQuote?_escape '0' rest
  | self character noControl noDigit other => exact closingQuote?_escape character rest
  | continuation => exact closingQuote?_escape '\n' rest

theorem closingQuote?_units (units : List (StringUnit quote)) (rest : List Char) :
    closingQuote? quote (units.flatMap StringUnit.text ++ quote :: rest) =
      some (units.flatMap StringUnit.text).length := by
  induction units with
  | nil => rcases isQuote with rfl | rfl <;> rfl
  | cons unit units induction =>
      rw [List.flatMap_cons, List.append_assoc, closingQuote?_unit isQuote, induction,
        Option.map_some, List.length_append, Nat.add_comm]

end

/-! ## Whole literals -/

theorem step_quote (isQuote : quote = '"' ∨ quote = '\'') (rest : List Char) :
    step quote rest = quotation quote rest := by
  rcases isQuote with rfl | rfl <;> rfl

/-- A literal is one step of the scan, whatever stands behind it. -/
theorem step_literal (literal : StringLiteral) (rest : List Char) :
    step literal.quote (literal.body ++ [literal.quote] ++ rest) =
      .ok (.lexeme (.string literal.value), (literal.body ++ [literal.quote]).length) := by
  have closing := closingQuote?_units literal.isQuote literal.units rest
  rw [step_quote literal.isQuote, quotation, List.append_assoc, List.singleton_append]
  simp only [StringLiteral.body, closing, List.take_left, Escape.decode_units literal.separate,
    List.length_append, List.length_singleton]
  rfl

theorem spells_literalText (literal : StringLiteral) (rest : List Char) :
    Spells literal.text [.string literal.value] rest :=
  spells_of_step (step_literal literal rest)

end Token

/-! ## What is written is a literal -/

namespace Text

end Text

namespace Token

/-- A code point in braces, a byte, a line feed that is left out, and both quotes. -/
example : (scan "'\\u\x7b048\x7d\\x69\\\n\\'\"'").map (·.1) =
    .ok [⟨.string "Hi'\"", .start⟩] := by cbv

end Token

end DocShell
