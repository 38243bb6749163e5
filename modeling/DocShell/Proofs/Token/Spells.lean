import DocShell.Proofs.Number.Whole
import DocShell.Proofs.Text.Quoted

namespace DocShell.Token

/-! # Text that spells lexemes

A text spells lexemes in front of a given rest if the scan passes over it, finds
tokens with these lexemes, and goes on with the rest. The positions of the tokens
are left open. Such texts can be put one behind the other. -/

def prepend (tokens : List Token) :
    Except (ScanFault × Position) (List Token × Position) →
      Except (ScanFault × Position) (List Token × Position)
  | .ok (behind, finish) => .ok (tokens ++ behind, finish)
  | .error located => .error located

theorem prepend_nil (result : Except (ScanFault × Position) (List Token × Position)) :
    prepend [] result = result := by
  cases result <;> rfl

theorem prepend_append (front back : List Token)
    (result : Except (ScanFault × Position) (List Token × Position)) :
    prepend (front ++ back) result = prepend front (prepend back result) := by
  cases result with
  | error located => rfl
  | ok found => simp only [prepend, List.append_assoc]

def Spells (text : List Char) (lexemes : List Lexeme) (rest : List Char) : Prop :=
  ∀ position, ∃ tokens : List Token, tokens.map (·.lexeme) = lexemes ∧
    scanFrom position (text ++ rest) = prepend tokens (scanFrom (position.afterAll text) rest)

variable {text rest : List Char}

theorem spells_nil (rest : List Char) : Spells [] [] rest := by
  intro position
  exact ⟨[], rfl, (prepend_nil _).symm⟩

theorem Spells.append {front back : List Char} {frontLexemes backLexemes : List Lexeme}
    (first : Spells front frontLexemes (back ++ rest)) (second : Spells back backLexemes rest) :
    Spells (front ++ back) (frontLexemes ++ backLexemes) rest := by
  intro position
  rcases first position with ⟨frontTokens, frontEqual, frontScan⟩
  rcases second (position.afterAll front) with ⟨backTokens, backEqual, backScan⟩
  refine ⟨frontTokens ++ backTokens, ?_, ?_⟩
  · rw [List.map_append, frontEqual, backEqual]
  · rw [List.append_assoc, frontScan, backScan, prepend_append, Position.afterAll_append]

/-- The tokens of a whole text that spells lexemes. -/
theorem Spells.scan {lexemes : List Lexeme} (spells : Spells text lexemes []) :
    ∃ tokens finish, Token.scan (String.ofList text) = .ok (tokens, finish) ∧
      tokens.map (·.lexeme) = lexemes := by
  rcases spells .start with ⟨tokens, equal, scanned⟩
  refine ⟨tokens, Position.start.afterAll text, ?_, equal⟩
  rw [List.append_nil, scanFrom] at scanned
  rw [Token.scan, String.toList_ofList, scanned, prepend, List.append_nil]

/-! ## Single tokens -/

/-- A text that is one step of the scan spells the lexeme that the step finds. -/
theorem spells_of_step {first : Char} {more : List Char} {lexeme : Lexeme}
    (found : step first (more ++ rest) = .ok (.lexeme lexeme, more.length)) :
    Spells (first :: more) [lexeme] rest := by
  intro position
  refine ⟨[⟨lexeme, position⟩], rfl, ?_⟩
  rw [List.cons_append, scanFrom, found]
  simp only [List.take_left, List.drop_left, Position.afterAll_cons]
  cases scanFrom ((position.after first).afterAll more) rest <;> rfl

theorem step_mark {mark : Mark} (noDot : mark ≠ .dot) (rest : List Char) :
    step mark.character rest = .ok (.lexeme (.mark mark), 0) := by
  cases mark with
  | dot => exact absurd rfl noDot
  | _ => rfl

theorem spells_mark {mark : Mark} (noDot : mark ≠ .dot) (rest : List Char) :
    Spells [mark.character] [.mark mark] rest :=
  spells_of_step (step_mark noDot rest)

/-- A dot before anything but a digit. -/
theorem spells_dot (noDigit : Escape.startsWithDigit rest = false) :
    Spells ['.'] [.mark .dot] rest := by
  refine spells_of_step ?_
  have found : step '.' rest = .ok (.lexeme (.mark .dot), 0) := by
    rw [step, noDigit]
    rfl
  exact found

theorem spells_spelledText {text spelled : List Char} (each : Text.SpelledText text spelled)
    (rest : List Char) :
    Spells ('"' :: spelled ++ ['"']) [.string (String.ofList text)] rest := by
  have one : step '"' (spelled ++ ['"'] ++ rest) =
      .ok (.lexeme (.string (String.ofList text)), (spelled ++ ['"']).length) := by
    rw [List.append_assoc, List.length_append]
    exact quotation_spelledText each rest
  exact spells_of_step one

theorem spells_quoted (text : String) (rest : List Char) :
    Spells (Text.quoted text) [.string text] rest := by
  have spells := spells_spelledText (Text.spelledText_flatMap_escaped text.toList) rest
  rwa [String.ofList_toList] at spells

/-! ## Words -/

theorem step_of_isWordStart :
    ∀ code ∈ List.range 128, Text.isWordStart (Char.ofNat code) = true →
      Text.isBlank (Char.ofNat code) = false ∧ (Char.ofNat code).isDigit = false ∧
        Char.ofNat code ∉ ['.', '"', '\'', '/'] := by decide +kernel

theorem spells_word {first : Char} {more : List Char} (start : Text.isWordStart first = true)
    (ascii : first.toNat < 128) (inside : ∀ character ∈ more, Text.isWordPart character = true)
    (apart : Apart rest) : Spells (first :: more) [.word (String.ofList (first :: more))] rest := by
  refine spells_of_step ?_
  rcases Text.forall_ascii (fun character => Text.isWordStart character = true →
      Text.isBlank character = false ∧ character.isDigit = false ∧
        character ∉ ['.', '"', '\'', '/'])
    step_of_isWordStart ascii start with ⟨noBlank, noDigit, noMark⟩
  simp only [List.mem_cons, List.not_mem_nil, or_false, not_or] at noMark
  rw [step, Text.takeWhile_run inside apart.word]
  simp [noBlank, noDigit, noMark, start]

/-! ## Numbers -/

def StartsNumber (first : Char) (rest : List Char) : Prop :=
  first.isDigit = true ∨ first = '.' ∧ Escape.startsWithDigit rest = true

theorem step_of_startsNumber {first : Char} {rest : List Char} (starts : StartsNumber first rest) :
    step first rest =
      match number (first :: rest) with
      | .ok (literal, count) => .ok (.lexeme (.number literal), count - 1)
      | .error fault => .error fault := by
  have noBlank : Text.isBlank first = false := by
    rcases starts with digit | ⟨rfl, _⟩
    · exact Text.forall_ascii
        (fun character => character.isDigit = true → Text.isBlank character = false)
        (by decide +kernel) (Text.toNat_lt_of_isDigit digit) digit
    · decide
  rw [step, noBlank, if_neg Bool.false_ne_true]
  exact if_pos starts

theorem spells_number {first : Char} {more : List Char} {literal : NumberLiteral}
    (starts : StartsNumber first (more ++ rest))
    (found : number (first :: more ++ rest) = .ok (literal, (first :: more).length)) :
    Spells (first :: more) [.number literal] rest := by
  refine spells_of_step ?_
  rw [step_of_startsNumber starts, ← List.cons_append, found]
  rfl

/-- The characters that a numeral takes, if it stands apart from what follows. -/
theorem spells_numeral {numeral : Numeral} (taken : Numeral.take? text = some (numeral, rest))
    (nonempty : numeral.whole ≠ []) (leading : numeral.whole.head? = some '0' → numeral.whole = ['0'])
    (apart : Apart rest) : ∃ front, text = front ++ rest ∧
      Spells front [.number ⟨numeral.toDouble false, String.ofList front⟩] rest := by
  have found := number_of_take? taken apart leading
  rcases Numeral.exists_digit_of_take? taken nonempty with ⟨digit, more, rfl, isDigit⟩
  rw [List.length_append, Nat.add_sub_cancel, List.take_left] at found
  exact ⟨digit :: more, rfl, spells_number (.inl isDigit) found⟩

/-- A whole number without a sign. -/
theorem spells_ofNat (whole : Nat) (apart : Apart rest) :
    Spells (Text.ofNat whole)
      [.number ⟨Double.ofInt whole, String.ofList (Text.ofNat whole)⟩] rest := by
  have found := number_ofNat whole apart
  have digits : ∀ digit ∈ Text.ofNat whole, digit.isDigit = true :=
    fun _ => Text.isDigit_of_mem_ofNat
  cases text : Text.ofNat whole with
  | nil => exact absurd text (Text.ofNat_ne_nil whole)
  | cons first more =>
      rw [text] at found digits
      exact spells_number (.inl (digits first List.mem_cons_self)) found

theorem spells_write (magnitude : Magnitude) (apart : Apart rest) :
    Spells (NumberLayout.shell.write magnitude)
      [.number ⟨.finite false magnitude, String.ofList (NumberLayout.shell.write magnitude)⟩]
      rest := by
  have found := number_write magnitude apart
  rcases NumberLayout.exists_spelling_write magnitude with ⟨spelling, sound, equal, _⟩
  have digits := sound.wholeDigits
  rcases whole : spelling.whole with _ | ⟨first, more⟩
  · exact absurd whole sound.nonempty
  · rw [whole] at digits
    rw [Spelling.text, whole, List.cons_append] at equal
    rw [equal] at found ⊢
    exact spells_number (.inl (digits first List.mem_cons_self)) found

/-! ## Blanks

One step passes over a whole run of blanks, also over those that follow a text.
What the scan finds is the same as if it took them one at a time. -/

theorem scanFrom_blanks {blank : Char} (isBlank : Text.isBlank blank = true) (rest : List Char)
    (position : Position) :
    scanFrom position (blank :: rest) =
      scanFrom (position.afterAll (blank :: rest.takeWhile Text.isBlank))
        (rest.dropWhile Text.isBlank) := by
  have found : step blank rest = .ok (.gap, (rest.takeWhile Text.isBlank).length) := by
    rw [step, if_pos isBlank]
  have parts : rest.takeWhile Text.isBlank ++ rest.dropWhile Text.isBlank = rest :=
    List.takeWhile_append_dropWhile
  rw [scanFrom, found]
  generalize rest.takeWhile Text.isBlank = run at parts ⊢
  generalize rest.dropWhile Text.isBlank = behind at parts ⊢
  subst parts
  simp only [List.take_left, List.drop_left]
  cases scanFrom (position.afterAll (blank :: run)) behind <;> rfl

theorem scanFrom_blank {blank : Char} (isBlank : Text.isBlank blank = true) (rest : List Char)
    (position : Position) :
    scanFrom position (blank :: rest) = scanFrom (position.after blank) rest := by
  rw [scanFrom_blanks isBlank]
  cases rest with
  | nil => rfl
  | cons first rest =>
      cases more : Text.isBlank first with
      | false => rw [List.takeWhile_cons, List.dropWhile_cons, more]; rfl
      | true => rw [List.takeWhile_cons, List.dropWhile_cons, more, scanFrom_blanks more]; rfl

theorem spells_blanks {blanks : List Char} (all : ∀ blank ∈ blanks, Text.isBlank blank = true)
    (rest : List Char) : Spells blanks [] rest := by
  induction blanks with
  | nil => exact spells_nil rest
  | cons blank blanks induction =>
      intro position
      have later := induction fun other member => all other (List.mem_cons_of_mem _ member)
      rcases later (position.after blank) with ⟨tokens, equal, scan⟩
      refine ⟨tokens, equal, ?_⟩
      rw [List.cons_append, scanFrom_blank (all blank List.mem_cons_self), scan,
        Position.afterAll_cons]

end DocShell.Token
