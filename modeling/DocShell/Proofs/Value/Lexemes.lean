import DocShell.Proofs.Calendar.Instant
import DocShell.Proofs.Scalar.Pattern
import DocShell.Proofs.Text.Unescaped
import DocShell.Proofs.Token.Parts
import DocShell.Proofs.Value.Normal

namespace DocShell

/-! # The lexemes of a written value

What a value is written as, in terms of lexemes and without any layout. Each way
of setting the parts of a container spells the same lexemes. -/

namespace Value

open Token (separated)

def signLexemes (negative : Bool) : List Lexeme := if negative then [.mark .minus] else []

def wholeLexeme (whole : Nat) : Lexeme :=
  .number ⟨Double.ofInt whole, String.ofList (Text.ofNat whole)⟩

def integerLexemes (number : Int) : List Lexeme :=
  signLexemes (number < 0) ++ [wholeLexeme number.natAbs]

def magnitudeLexeme (magnitude : Magnitude) : Lexeme :=
  .number ⟨.finite false magnitude, String.ofList (NumberLayout.shell.write magnitude)⟩

def numberLexemes : Double → List Lexeme
  | .nan => [.word "NaN"]
  | .infinity negative => signLexemes negative ++ [.word "Infinity"]
  | .finite negative magnitude =>
      signLexemes (negative && magnitude.units ≠ 0) ++ [magnitudeLexeme magnitude]

def callLexemes (name : String) (arguments : List (List Lexeme)) : List Lexeme :=
  .word name :: .mark .parenOpen :: separated arguments ++ [.mark .parenClose]

def dateLexemes (instant : Int) : List Lexeme :=
  match Calendar.write? instant with
  | some text => callLexemes "ISODate" [[.string (String.ofList text)]]
  | none => callLexemes "Date" [integerLexemes instant]

def keyLexeme (key : String) : Lexeme := if isBareKey key then .word key else .string key

mutual

def lexemes : Value → List Lexeme
  | .absent => []
  | .null => [.word "null"]
  | .bool value => [.word (if value then "true" else "false")]
  | .number value => numberLexemes value
  | .string text => [.string text]
  | .objectId identifier => callLexemes "ObjectId" [[.string identifier.hex]]
  | .int value => integerLexemes value.toInt
  | .long digits => callLexemes "NumberLong" [[.string digits.text]]
  | .decimal digits => callLexemes "NumberDecimal" [[.string digits.text]]
  | .double value => numberLexemes value
  | .date instant => dateLexemes instant
  | .regex pattern => [.regex (String.ofList (writtenSource pattern.source)) pattern.options]
  | .timestamp seconds increment =>
      callLexemes "Timestamp" [[wholeLexeme seconds.toNat], [wholeLexeme increment.toNat]]
  | .binary data =>
      callLexemes "BinData" [[wholeLexeme data.subtype.toNat], [.string data.base64]]
  | .array items =>
      .mark .bracketOpen :: separated (itemLexemes items) ++ [.mark .bracketClose]
  | .document fields =>
      .mark .braceOpen :: separated (fieldLexemes fields) ++ [.mark .braceClose]

def itemLexemes : List Value → List (List Lexeme)
  | [] => []
  | item :: rest =>
      (if item.isAbsent then [.word "undefined"] else lexemes item) :: itemLexemes rest

def fieldLexemes : List (String × Value) → List (List Lexeme)
  | [] => []
  | (name, value) :: rest =>
      if value.isAbsent then fieldLexemes rest
      else (keyLexeme name :: .mark .colon :: lexemes value) :: fieldLexemes rest

end

/-- The characters of a key that needs no quotes. -/
theorem exists_of_isBareKey {key : String} (bare : isBareKey key = true) :
    ∃ first rest, key.toList = first :: rest ∧
      (first.isAlpha || first = '_' || first = '$') = true ∧
      ∀ character ∈ rest, (character.isAlphanum || character = '_' || character = '$') = true := by
  unfold isBareKey at bare
  split at bare
  · cases bare
  · rename_i first rest characters
    rw [Bool.and_eq_true, List.all_eq_true] at bare
    exact ⟨first, rest, characters, bare⟩

end Value

/-! ## Written values -/

namespace Token

open Value

theorem blankSpacing_spacing (indent depth : Nat) {padding : List Char} (layout : Layout padding) :
    BlankSpacing (spacing indent depth padding) := by
  have line (count : Nat) : Layout ('\n' :: Text.Spacing.spaces count) :=
    layout_cons (.inr rfl) (layout_spaces count)
  unfold spacing
  split
  · exact ⟨layout, ⟨[' '], rfl, layout_spaces 1⟩, layout⟩
  · exact ⟨line _, ⟨_, rfl, line _⟩, line _⟩

theorem spells_minus (negative : Bool) {text : List Char} {lexemes : List Lexeme} {rest : List Char}
    (behind : Spells text lexemes rest) :
    Spells (if negative then '-' :: text else text) (signLexemes negative ++ lexemes) rest := by
  have noDot : Mark.minus ≠ .dot := by decide
  cases negative with
  | false => exact behind
  | true => exact (spells_mark noDot _).cons behind

theorem spells_integer (number : Int) {rest : List Char} (apart : Apart rest) :
    Spells (Text.ofInt number) (integerLexemes number) rest := by
  have signed := spells_minus (number < 0) (spells_ofNat number.natAbs apart)
  simpa [Text.ofInt, integerLexemes, wholeLexeme] using signed

/-- A name made of letters. -/
theorem spells_name {name : String} (nonempty : name.toList ≠ [])
    (letters : name.toList.all Char.isAlpha = true) {rest : List Char}
    (apart : Apart rest) : Spells name.toList [.word name] rest := by
  cases characters : name.toList with
  | nil => exact absurd characters nonempty
  | cons first more =>
      rw [characters] at letters
      have letters := List.all_eq_true.mp letters
      have start := letters first List.mem_cons_self
      have inside : ∀ letter ∈ more, Text.isWordPart letter = true := by
        intro letter member
        rw [Text.isWordPart, Text.isWordStart_of_isAlpha (letters letter (List.mem_cons_of_mem _ member)),
          Bool.true_or]
      have word := spells_word (Text.isWordStart_of_isAlpha start) (Text.toNat_lt_of_isAlpha start)
        inside apart
      rw [← characters, String.ofList_toList, characters] at word
      exact word

theorem spells_shellText (number : Double) {rest : List Char} (apart : Apart rest) :
    Spells number.shellText (numberLexemes number) rest := by
  cases number with
  | nan => exact spells_name (by decide) (by decide) apart
  | infinity negative =>
      have word : Spells "Infinity".toList [.word "Infinity"] rest :=
        spells_name (by decide) (by decide) apart
      exact spells_minus negative word
  | finite negative magnitude => exact spells_minus _ (spells_write magnitude apart)

theorem spells_call {name : String} (nonempty : name.toList ≠ [])
    (letters : name.toList.all Char.isAlpha = true) {argument : List Char}
    {arguments : List (List Lexeme)}
    (inside : ∀ rest, Apart rest → Spells argument (separated arguments) rest) (rest : List Char) :
    Spells (writtenCall name argument) (callLexemes name arguments) rest := by
  have noOpen : Mark.parenOpen ≠ .dot := by decide
  have noClose : Mark.parenClose ≠ .dot := by decide
  have closing := (inside _ (apart_cons (by decide) (by decide) _)).append (spells_mark noClose rest)
  have all := (spells_name nonempty letters (apart_cons (by decide) (by decide) _)).cons
    ((spells_mark noOpen _).cons closing)
  simpa [writtenCall, callLexemes, Mark.character] using all

theorem spells_inQuotes {text : List Char} (unescaped : Text.Unescaped text) (rest : List Char) :
    Spells (inQuotes text) [.string (String.ofList text)] rest := by
  have quoted := spells_quoted (String.ofList text) rest
  rwa [Text.quoted, String.toList_ofList, unescaped.flatMap] at quoted

theorem isWordStart_of_bare {character : Char}
    (bare : (character.isAlpha || character = '_' || character = '$') = true) :
    Text.isWordStart character = true ∧ character.toNat < 128 := by
  simp only [Bool.or_eq_true, decide_eq_true_eq] at bare
  rcases bare with (letter | rfl) | rfl
  · exact ⟨Text.isWordStart_of_isAlpha letter, Text.toNat_lt_of_isAlpha letter⟩
  · decide
  · decide

theorem isWordPart_of_bare {character : Char}
    (bare : (character.isAlphanum || character = '_' || character = '$') = true) :
    Text.isWordPart character = true := by
  simp only [Char.isAlphanum, Bool.or_eq_true, decide_eq_true_eq] at bare
  rcases bare with ((letter | digit) | rfl) | rfl
  · rw [Text.isWordPart, Text.isWordStart_of_isAlpha letter, Bool.true_or]
  · exact Text.isWordPart_of_isDigit digit
  · decide
  · decide

theorem spells_key (key : String) {rest : List Char} (apart : Apart rest) :
    Spells (writtenKey key) [keyLexeme key] rest := by
  unfold writtenKey keyLexeme
  split
  · rename_i bare
    rcases exists_of_isBareKey bare with ⟨first, more, characters, begins, inside⟩
    rcases isWordStart_of_bare begins with ⟨start, ascii⟩
    have word := spells_word start ascii
      (fun character member => isWordPart_of_bare (inside character member)) apart
    rw [← characters, String.ofList_toList] at word
    exact word
  · exact spells_quoted key rest

end Token

namespace Value

open Token

theorem spells_writtenDate (instant : Int) (rest : List Char) :
    Spells (writtenDate instant) (dateLexemes instant) rest := by
  cases written : Calendar.write? instant with
  | none =>
      simp only [writtenDate, dateLexemes, written]
      exact spells_call (by decide) (by decide) (fun _ apart => spells_integer instant apart) rest
  | some text =>
      simp only [writtenDate, dateLexemes, written]
      exact spells_call (by decide) (by decide)
        (fun rest _ => spells_inQuotes (Text.unescaped_of_write? written) rest) rest

/-- A call of a constructor with one text. -/
theorem spells_textCall {name : String} (nonempty : name.toList ≠ [])
    (letters : name.toList.all Char.isAlpha = true) {text : String}
    (unescaped : Text.Unescaped text.toList) (rest : List Char) :
    Spells (writtenCall name (inQuotes text.toList)) (callLexemes name [[.string text]]) rest := by
  refine spells_call nonempty letters (fun rest _ => ?_) rest
  have quoted := spells_inQuotes unescaped rest
  rwa [String.ofList_toList] at quoted

/-- A call of a constructor with a whole number and another argument. -/
theorem spells_pairCall {name : String} (nonempty : name.toList ≠ [])
    (letters : name.toList.all Char.isAlpha = true) (whole : Nat) {second : List Char}
    {lexemes : List Lexeme} (inside : ∀ rest, Apart rest → Spells second lexemes rest)
    (rest : List Char) :
    Spells (writtenCall name (Text.ofNat whole ++ ',' :: ' ' :: second))
      (callLexemes name [[wholeLexeme whole], lexemes]) rest := by
  refine spells_call nonempty letters (fun rest apart => ?_) rest
  have joined := spells_joined (layout_spaces 1)
    (.cons (fun _ apart => spells_ofNat whole apart) (.singleton inside)) apart
  rwa [Text.joined, Text.joined, List.append_assoc] at joined
  exact List.cons_ne_nil _ _

theorem spells_scalar {value : Value} (scalar : value.isContainer = false) (sound : value.SoundHere)
    (closed : value.ClosedHere) (indent depth : Nat) {rest : List Char} (apart : Apart rest) :
    Spells (value.written indent depth) value.lexemes rest := by
  cases value with
  | absent => exact spells_nil rest
  | null => exact spells_name (by decide) (by decide) apart
  | bool value => cases value <;> exact spells_name (by decide) (by decide) apart
  | number value => exact spells_shellText value apart
  | string text => exact spells_quoted text rest
  | objectId identifier =>
      refine spells_textCall (by decide) (by decide) ?_ rest
      rw [ObjectId.hex, String.toList_ofList]
      exact Text.unescaped_hexOfBytes identifier.bytes
  | int value => exact spells_integer value.toInt apart
  | long digits =>
      exact spells_textCall (by decide) (by decide) (Text.unescaped_of_int? digits.reads) rest
  | decimal digits =>
      exact spells_textCall (by decide) (by decide) (Text.unescaped_of_fault? digits.sound) rest
  | double value => exact spells_shellText value apart
  | date instant => exact spells_writtenDate instant rest
  | regex pattern => exact spells_regex sound closed apart
  | timestamp seconds increment =>
      exact spells_pairCall (by decide) (by decide) _ (fun _ apart => spells_ofNat _ apart) rest
  | binary data =>
      exact spells_pairCall (by decide) (by decide) _ (fun rest _ => spells_quoted _ rest) rest
  | array items => cases scalar
  | document fields => cases scalar

theorem spellEach_items (indent depth : Nat) {items : List Value}
    (each : ∀ item ∈ items, ∀ rest, Apart rest →
      Spells (item.written indent depth) item.lexemes rest) :
    SpellEach (writtenItems indent depth items) (itemLexemes items) := by
  induction items with
  | nil => exact .nil
  | cons item items induction =>
      refine .cons (fun rest apart => ?_)
        (induction fun other member => each other (List.mem_cons_of_mem _ member))
      cases absent : item.isAbsent with
      | true => exact spells_name (by decide) (by decide) apart
      | false => exact each item List.mem_cons_self rest apart

theorem spellEach_fields (indent depth : Nat) {fields : List (String × Value)}
    (each : ∀ field ∈ fields, ∀ rest, Apart rest →
      Spells (field.2.written indent depth) field.2.lexemes rest) :
    SpellEach (writtenFields indent depth fields) (fieldLexemes fields) := by
  induction fields with
  | nil => exact .nil
  | cons field fields induction =>
      rcases field with ⟨name, value⟩
      have later := induction fun other member => each other (List.mem_cons_of_mem _ member)
      rw [writtenFields, fieldLexemes]
      cases absent : value.isAbsent with
      | true => exact later
      | false =>
          refine .cons (fun rest apart => ?_) later
          have noDot : Mark.colon ≠ .dot := by decide
          have inner := each (name, value) List.mem_cons_self rest apart
          have behind := (spells_mark noDot _).cons ((spells_layout (layout_spaces 1) _).append inner)
          have all := (spells_key name (apart_cons (by decide) (by decide) _)).cons behind
          simpa [Mark.character, Text.Spacing.spaces] using all

/-- A sound and closed value is cut into its lexemes, however it is set. -/
theorem spells_written {value : Value} (sound : value.Sound) (closed : value.Closed)
    (indent depth : Nat) {rest : List Char} (apart : Apart rest) :
    Spells (value.written indent depth) value.lexemes rest := by
  have noDot : Mark.bracketOpen ≠ .dot ∧ Mark.bracketClose ≠ .dot := by decide
  have noBrace : Mark.braceOpen ≠ .dot ∧ Mark.braceClose ≠ .dot := by decide
  induction value using Value.induction generalizing depth rest with
  | scalar value scalar =>
      exact spells_scalar scalar ((everywhere_scalar scalar).mp sound)
        ((everywhere_scalar scalar).mp closed) indent depth apart
  | array items induction =>
      have each := spellEach_items indent (depth + 1) fun item member rest apart =>
        induction item member ((everywhere_array.mp sound).2 item member)
          ((everywhere_array.mp closed).2 item member) (depth + 1) apart
      exact spells_enclosed noDot (apart_cons (by decide) (by decide) _)
        (blankSpacing_spacing indent depth (layout_spaces 0)) each
  | document fields induction =>
      have each := spellEach_fields indent (depth + 1) fun field member rest apart =>
        induction field member ((everywhere_document.mp sound).2 field member)
          ((everywhere_document.mp closed).2 field member) (depth + 1) apart
      exact spells_enclosed noBrace (apart_cons (by decide) (by decide) _)
        (blankSpacing_spacing indent depth (layout_spaces 1)) each

/-- The tokens of the text of a sound and closed value. -/
theorem scan_shellText {value : Value} (sound : value.Sound) (closed : value.Closed)
    (indent : Nat) :
    ∃ tokens finish, Token.scan (value.shellText indent) = .ok (tokens, finish) ∧
      tokens.map (·.lexeme) = value.lexemes :=
  (spells_written sound closed indent 0 apart_nil).scan

end Value

end DocShell
