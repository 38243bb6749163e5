import DocShell.Proofs.Number.Exact
import DocShell.Proofs.Text.Digits
import DocShell.Scalar.DecimalText

namespace DocShell

/-! # Texts that are decimals

A decimal text is one of the words, or a numeral behind at most one sign. Of the
numerals those are accepted whose significand is short and whose power of ten is small,
each looked at by itself; all others are out of range, and every other text is
malformed. -/

structure WrittenDecimal where
  sign : Option Sign
  spelling : Spelling
  formed : spelling.Formed
  nonempty : spelling.numeral.digits ≠ []

namespace WrittenDecimal

def text (written : WrittenDecimal) : List Char :=
  (written.sign.map Sign.character).toList ++ written.spelling.text

def value (written : WrittenDecimal) : ℚ :=
  Sign.appliedAll written.sign.toList written.spelling.numeral.value

def significand (written : WrittenDecimal) : ℕ :=
  Text.natOfDigits written.spelling.numeral.digits

def scale (written : WrittenDecimal) : ℤ :=
  written.spelling.numeral.exponent - written.spelling.numeral.fraction.length

def Accepted (written : WrittenDecimal) : Prop :=
  written.significand < 10 ^ DecimalText.digitLimit ∧ FitsInt written.spelling.numeral.exponent

instance (written : WrittenDecimal) : Decidable written.Accepted := by
  unfold Accepted
  infer_instance

end WrittenDecimal

namespace ExponentSpelling

/-- The digits of an exponent with their sign are a whole number. -/
theorem int?_digits {exponent : ExponentSpelling} (sound : exponent.Sound) :
    Text.int? ((exponent.sign.map Sign.character).toList ++ exponent.digits) =
      some exponent.power := by
  have read := Text.nat?_of_digits sound.nonempty sound.allDigits
  have all := sound.allDigits
  rcases exponent with ⟨mark, _ | _ | _, digits⟩
  · change Text.int? digits = some (Text.natOfDigits digits : Int)
    unfold Text.int?
    split
    · exact absurd (all '-' List.mem_cons_self) (by decide)
    · exact absurd (all '+' List.mem_cons_self) (by decide)
    · rw [read]
      rfl
  · change (Text.nat? digits).map Int.ofNat = _
    rw [read]
    rfl
  · change (Text.nat? digits).map (fun (number : Nat) => -(number : Int)) = _
    rw [read]
    rfl

/-- Every whole number in text is the sign and the digits of an exponent. -/
theorem exists_of_int? {mark : Char} (isMark : mark = 'e' ∨ mark = 'E') {text : List Char}
    {power : Int} (read : Text.int? text = some power) :
    ∃ exponent : ExponentSpelling, exponent.Sound ∧ exponent.text = mark :: text := by
  unfold Text.int? at read
  split at read
  · rename_i digits
    rcases Option.map_eq_some_iff.mp read with ⟨size, found, _⟩
    rcases Text.exists_digits_of_nat? found with ⟨nonempty, all, _⟩
    exact ⟨⟨mark, some .minus, digits⟩, ⟨isMark, nonempty, all⟩, rfl⟩
  · rename_i digits
    rcases Option.map_eq_some_iff.mp read with ⟨size, found, _⟩
    rcases Text.exists_digits_of_nat? found with ⟨nonempty, all, _⟩
    exact ⟨⟨mark, some .plus, digits⟩, ⟨isMark, nonempty, all⟩, rfl⟩
  · rcases Option.map_eq_some_iff.mp read with ⟨size, found, _⟩
    rcases Text.exists_digits_of_nat? found with ⟨nonempty, all, _⟩
    exact ⟨⟨mark, none, text⟩, ⟨isMark, nonempty, all⟩, rfl⟩

end ExponentSpelling

namespace DecimalText

/-! ## The parts of a text -/

theorem cut_of_stop {test : Char → Bool} {front rest : List Char} {stop : Char}
    (outside : ∀ character ∈ front, test character = false) (stops : test stop = true) :
    cut test (front ++ stop :: rest) = (front, some rest) := by
  have inside : ∀ character ∈ front, (!test character) = true := fun character member => by
    rw [outside character member]
    rfl
  have leaves : Text.Leaves (!test ·) (stop :: rest) := Text.leaves_cons (by rw [stops]; rfl) _
  rw [cut, Text.takeWhile_run inside leaves, Text.dropWhile_run inside leaves]
  rfl

theorem cut_of_all {test : Char → Bool} {front : List Char}
    (outside : ∀ character ∈ front, test character = false) : cut test front = (front, none) := by
  have inside : ∀ character ∈ front, (!test character) = true := fun character member => by
    rw [outside character member]
    rfl
  have leaves := Text.leaves_nil (!test ·)
  have taken := Text.takeWhile_run inside leaves
  have dropped := Text.dropWhile_run inside leaves
  rw [List.append_nil] at taken dropped
  rw [cut, taken, dropped]
  rfl

/-- The parts of a cut, put together again. -/
theorem append_of_cut {test : Char → Bool} {text front : List Char} {back : Option (List Char)}
    (parts : cut test text = (front, back)) :
    (back = none ∧ text = front) ∨
      ∃ stop rest, back = some rest ∧ test stop = true ∧ text = front ++ stop :: rest := by
  have whole : text.takeWhile (!test ·) ++ text.dropWhile (!test ·) = text :=
    List.takeWhile_append_dropWhile
  cases parts
  cases behind : text.dropWhile (!test ·) with
  | nil =>
      rw [behind, List.append_nil] at whole
      exact .inl ⟨rfl, whole.symm⟩
  | cons stop rest =>
      have head := List.head?_dropWhile_not (!test ·) text
      rw [behind] at head whole
      exact .inr ⟨stop, rest, rfl, by simpa using head, whole.symm⟩

theorem mark_of_isDigit {digit : Char} (isDigit : digit.isDigit = true) :
    (decide (digit = 'e') || decide (digit = 'E')) = false ∧ decide (digit = '.') = false :=
  Text.forall_ascii (fun digit => digit.isDigit = true →
      (decide (digit = 'e') || decide (digit = 'E')) = false ∧ decide (digit = '.') = false)
    (by decide +kernel) (Text.toNat_lt_of_isDigit isDigit) isDigit

variable {spelling : Spelling} (formed : spelling.Formed)

include formed

theorem cut_point :
    cut (· = '.') (spelling.whole ++ spelling.fractionText) =
      (spelling.whole, spelling.fraction) := by
  have outside : ∀ digit ∈ spelling.whole, decide (digit = '.') = false :=
    fun digit member => (mark_of_isDigit (formed.wholeDigits digit member)).2
  rcases spelling with ⟨whole, _ | fraction, exponent⟩
  · rw [Spelling.fractionText, List.append_nil]
    exact cut_of_all outside
  · exact cut_of_stop outside rfl

theorem cut_mark :
    cut (fun mark => mark = 'e' || mark = 'E') spelling.text =
      (spelling.whole ++ spelling.fractionText, spelling.exponent.map fun exponent =>
        (exponent.sign.map Sign.character).toList ++ exponent.digits) := by
  have outside : ∀ character ∈ spelling.whole ++ spelling.fractionText,
      (decide (character = 'e') || decide (character = 'E')) = false := by
    intro character member
    rcases List.mem_append.mp member with whole | fraction
    · exact (mark_of_isDigit (formed.wholeDigits character whole)).1
    · have digits := formed.fractionDigits
      rcases spelling with ⟨whole, _ | digits, exponent⟩
      · cases fraction
      · rcases List.mem_cons.mp fraction with rfl | inner
        · rfl
        · exact (mark_of_isDigit (digits _ rfl character inner)).1
  have sound := formed.exponentSound
  rw [Spelling.text, ← List.append_assoc]
  rcases spelling with ⟨whole, fraction, _ | exponent⟩
  · rw [Spelling.exponentText, List.append_nil]
    exact cut_of_all outside
  · refine cut_of_stop outside ?_
    rcases (sound exponent rfl).isMark with mark | mark <;> rw [mark] <;> rfl

theorem all_digits : spelling.numeral.digits.all Char.isDigit = true := by
  refine List.all_eq_true.mpr fun digit member => ?_
  rcases List.mem_append.mp member with whole | fraction
  · exact formed.wholeDigits digit whole
  · have digits := formed.fractionDigits
    rcases spelling with ⟨whole, _ | fractionDigits, exponent⟩
    · cases fraction
    · exact digits _ rfl digit fraction

/-! ## Acceptance -/

/-- The digits and the power of a numeral are looked at each by itself. -/
theorem unsignedFault?_text (nonempty : spelling.numeral.digits ≠ []) :
    (unsignedFault? spelling.text = none ∧
      Text.natOfDigits spelling.numeral.digits < 10 ^ digitLimit ∧
        FitsInt spelling.numeral.exponent) ∨
    (unsignedFault? spelling.text = some .outOfRange ∧
      ¬(Text.natOfDigits spelling.numeral.digits < 10 ^ digitLimit ∧
        FitsInt spelling.numeral.exponent)) := by
  have all := all_digits formed
  have short := Text.length_dropWhile_zero_le_iff (List.all_eq_true.mp all) digitLimit
  have sound := formed.exponentSound
  have point := cut_point formed
  have mark := cut_mark formed
  have digits : spelling.whole ++ spelling.fraction.getD [] = spelling.numeral.digits := rfl
  simp only [unsignedFault?, mark, point, digits, nonempty, all, Bool.true_eq_false, or_self,
    if_false, ← short]
  generalize spelling.numeral.digits.dropWhile (· = '0') = significant
  rcases spelling with ⟨whole, fraction, _ | exponent⟩
  · have fits : FitsInt 0 := by decide
    simp only [Option.map_none, Spelling.numeral, Option.getD_none, fits, and_true]
    split
    · exact .inr ⟨rfl, by omega⟩
    · exact .inl ⟨rfl, by omega⟩
  · have power := ExponentSpelling.int?_digits (sound exponent rfl)
    simp only [Option.map_some, Spelling.numeral, power, Option.getD_some, FitsInt]
    split
    · exact .inr ⟨rfl, by omega⟩
    · split
      · exact .inr ⟨rfl, by omega⟩
      · exact .inl ⟨rfl, by omega⟩

omit formed

/-- Only numerals are looked at that closely. -/
theorem exists_spelling_of_unsignedFault? {text : List Char}
    (wellFormed : unsignedFault? text ≠ some .malformed) :
    ∃ spelling : Spelling, spelling.Formed ∧ spelling.numeral.digits ≠ [] ∧ spelling.text = text := by
  simp only [unsignedFault?] at wellFormed
  generalize mark : cut (fun mark => mark = 'e' || mark = 'E') text = marked at wellFormed
  rcases marked with ⟨mantissa, back⟩
  generalize point : cut (· = '.') mantissa = pointed at wellFormed
  rcases pointed with ⟨whole, fraction⟩
  simp only at wellFormed
  split at wellFormed
  · exact absurd rfl wellFormed
  rename_i digits
  rw [not_or, Bool.not_eq_false] at digits
  have all := List.all_eq_true.mp digits.2
  have wholeDigits : ∀ digit ∈ whole, digit.isDigit = true :=
    fun digit member => all digit (List.mem_append_left _ member)
  have fractionDigits : ∀ digits ∈ fraction, ∀ digit ∈ digits, digit.isDigit = true := by
    rintro digits rfl digit member
    exact all digit (List.mem_append_right _ member)
  -- The text is put together again in the order of the cuts, first at the point, then at the mark.
  have mantissaText : mantissa = whole ++ Spelling.fractionText ⟨whole, fraction, none⟩ := by
    rcases append_of_cut point with ⟨rfl, rfl⟩ | ⟨stop, rest, rfl, stops, rfl⟩
    · exact (List.append_nil _).symm
    · rw [of_decide_eq_true stops]
      rfl
  rcases append_of_cut mark with ⟨rfl, rfl⟩ | ⟨stop, rest, rfl, stops, rfl⟩
  · refine ⟨⟨whole, fraction, none⟩, ⟨wholeDigits, fractionDigits, nofun⟩, digits.1, ?_⟩
    rw [mantissaText]
    exact congrArg _ (List.append_nil _)
  · cases read : Text.int? rest with
    | none =>
        rw [Option.map_some, read] at wellFormed
        exact absurd rfl wellFormed
    | some power =>
        have isMark : stop = 'e' ∨ stop = 'E' := by simpa using stops
        rcases ExponentSpelling.exists_of_int? isMark read with ⟨exponent, sound, equal⟩
        refine ⟨⟨whole, fraction, some exponent⟩, ⟨wholeDigits, fractionDigits, ?_⟩, digits.1, ?_⟩
        · rintro other ⟨⟩
          exact sound
        · rw [mantissaText, ← equal, List.append_assoc]
          rfl

def IsWord (text : String) : Prop := String.ofList (unsigned text.toList) ∈ words

instance (text : String) : Decidable (IsWord text) := by
  unfold IsWord
  infer_instance

end DecimalText

namespace WrittenDecimal

open DecimalText

/-- A numeral begins with a digit or a point. -/
theorem exists_cons_of_formed {spelling : Spelling} (formed : spelling.Formed)
    (nonempty : spelling.numeral.digits ≠ []) :
    ∃ first rest, spelling.text = first :: rest ∧ (first.isDigit = true ∨ first = '.') := by
  have digits := formed.wholeDigits
  rcases spelling with ⟨_ | ⟨first, whole⟩, _ | fraction, exponent⟩
  · exact absurd rfl nonempty
  · exact ⟨'.', _, rfl, .inr rfl⟩
  · exact ⟨first, _, rfl, .inl (digits first List.mem_cons_self)⟩
  · exact ⟨first, _, rfl, .inl (digits first List.mem_cons_self)⟩

theorem unsigned_text (written : WrittenDecimal) :
    unsigned written.text = written.spelling.text := by
  rcases written with ⟨_ | _ | _, spelling, formed, nonempty⟩
  · rcases exists_cons_of_formed formed nonempty with ⟨first, rest, equal, start⟩
    change unsigned spelling.text = spelling.text
    rw [equal, unsigned]
    · rintro behind ⟨⟩
      exact absurd start (by decide)
    · rintro behind ⟨⟩
      exact absurd start (by decide)
  · rfl
  · rfl

theorem not_isWord (written : WrittenDecimal) : ¬IsWord (String.ofList written.text) := by
  intro word
  rw [IsWord, String.toList_ofList, unsigned_text] at word
  rcases exists_cons_of_formed written.formed written.nonempty with ⟨first, rest, equal, start⟩
  have letters : ∀ word ∈ words,
      (word.toList.head?.all fun first => !(first.isDigit || first = '.')) = true := by decide
  have outside := letters _ word
  rw [String.toList_ofList, equal, List.head?_cons, Option.all_some] at outside
  rcases start with digit | rfl
  · rw [digit] at outside
    cases outside
  · cases outside

theorem fault?_text (written : WrittenDecimal) :
    (fault? (String.ofList written.text) = none ∧ written.Accepted) ∨
      (fault? (String.ofList written.text) = some .outOfRange ∧ ¬written.Accepted) := by
  have noWord := written.not_isWord
  rw [IsWord] at noWord
  rw [fault?, if_neg noWord, String.toList_ofList, unsigned_text]
  exact unsignedFault?_text written.formed written.nonempty

end WrittenDecimal

/-- Every text that is no word and not malformed is a numeral behind at most one sign. -/
theorem DecimalText.isWord_or_written {text : String} (wellFormed : fault? text ≠ some .malformed) :
    IsWord text ∨ ∃ written : WrittenDecimal, text = String.ofList written.text := by
  rw [fault?] at wellFormed
  split at wellFormed
  · rename_i word
    exact .inl word
  refine .inr ?_
  rcases exists_spelling_of_unsignedFault? wellFormed with ⟨spelling, formed, nonempty, equal⟩
  unfold unsigned at equal
  split at equal
  · rename_i rest behind
    refine ⟨⟨some .minus, spelling, formed, nonempty⟩, ?_⟩
    rw [← String.ofList_toList (s := text), behind, ← equal]
    rfl
  · rename_i rest behind
    refine ⟨⟨some .plus, spelling, formed, nonempty⟩, ?_⟩
    rw [← String.ofList_toList (s := text), behind, ← equal]
    rfl
  · refine ⟨⟨none, spelling, formed, nonempty⟩, ?_⟩
    rw [← String.ofList_toList (s := text), ← equal]
    rfl

end DocShell
