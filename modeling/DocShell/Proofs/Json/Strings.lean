import DocShell.Proofs.Text.Quoted

namespace DocShell.Json

/-! # Strings of JSON

The reader of strings takes a text just if it is a run of spelled characters with a quote
behind it. -/

open Text

/-! ## What is read -/

/-- A character that is spelled in front of a text whose body is spelled. -/
theorem spelledText_of_withFirst {character : Char} {spelling text body rest : List Char}
    (first : Spelled character spelling)
    (read : withFirst character (stringBody? text) = some (body, rest))
    (later : ∀ {tail rest}, stringBody? text = some (tail, rest) →
      ∃ spelled, text = spelled ++ '"' :: rest ∧ SpelledText tail spelled) :
    ∃ spelled, spelling ++ text = spelled ++ '"' :: rest ∧ SpelledText body spelled := by
  rcases eq_some_of_withFirst read with ⟨tail, found, rfl⟩
  rcases later found with ⟨spelled, rfl, inner⟩
  exact ⟨spelling ++ spelled, (List.append_assoc _ _ _).symm, .cons first inner⟩

/-- What stands in front of the closing quote spells the text that is read. -/
theorem spelledText_of_stringBody? {text body rest : List Char}
    (read : stringBody? text = some (body, rest)) :
    ∃ spelled, text = spelled ++ '"' :: rest ∧ SpelledText body spelled := by
  -- Of the reader's cases those are left that end or go on; in all others nothing is read.
  fun_induction stringBody? text generalizing body rest with
  | case2 behind =>
      cases read
      exact ⟨[], rfl, .nil⟩
  | case4 behind high found isHigh second paired low lowFound induction =>
      rcases Option.filter_eq_some_iff.mp lowFound with ⟨lowFound, isLow⟩
      rcases exists_of_hexPrefix? found with ⟨front, frontWidth, frontNumber, frontEqual⟩
      rcases exists_of_hexPrefix? lowFound with ⟨back, backWidth, backNumber, backEqual⟩
      have first := Spelled.pair frontWidth frontNumber isHigh backWidth backNumber isLow
      have equal : '\\' :: 'u' :: behind =
          '\\' :: 'u' :: front ++ '\\' :: 'u' :: back ++ second.drop 4 := by
        rw [paired, backEqual] at frontEqual
        rw [frontEqual]
        simp
      rw [equal]
      exact spelledText_of_withFirst first read induction
  | case8 behind code found noHigh noLow induction =>
      rcases exists_of_hexPrefix? found with ⟨digits, width, number, equal⟩
      have first := Spelled.code width number (Bool.eq_false_iff.mpr noHigh)
        (Bool.eq_false_iff.mpr noLow)
      rw [equal]
      exact spelledText_of_withFirst first read induction
  | case9 letter behind noUnicode character found induction =>
      exact spelledText_of_withFirst (.short found) read induction
  | case12 character behind noQuote noUnicode noEscape noControl induction =>
      have noSlash : character ≠ '\\' := by
        intro slash
        cases behind with
        | nil =>
            rw [stringBody?] at read
            cases read
        | cons letter more => exact noEscape letter more slash rfl
      exact spelledText_of_withFirst (.plain noQuote noSlash noControl) read induction
  | _ => cases read

/-! ## What may be read -/

theorem stringBody?_spelled {character : Char} {spelling : List Char}
    (spelled : Spelled character spelling) (rest : List Char) :
    stringBody? (spelling ++ rest) = withFirst character (stringBody? rest) := by
  cases spelled with
  | plain noQuote noSlash noControl =>
      rw [List.singleton_append, stringBody?, if_neg noControl]
      · exact noQuote
      · intros
        contradiction
      · intros
        contradiction
  | @short letter character found =>
      have noCode : letter ≠ 'u' := by
        rintro rfl
        cases found
      rw [List.cons_append, List.singleton_append, stringBody?, found]
      exact noCode
  | @code digits code width number noHigh noLow =>
      rw [List.cons_append, List.cons_append, stringBody?, hexPrefix?_append width, number]
      simp only [noHigh, noLow, Bool.false_eq_true, if_false, List.drop_left' width]
  | @pair front back high low frontWidth frontNumber isHigh backWidth backNumber isLow =>
      have behind : (front ++ '\\' :: 'u' :: (back ++ rest)).drop 4 = '\\' :: 'u' :: (back ++ rest) :=
        List.drop_left' frontWidth
      rw [unicodePair_append, stringBody?, hexPrefix?_append frontWidth, frontNumber]
      simp only [isHigh, if_true]
      split
      · rename_i second paired
        cases paired.symm.trans behind
        rw [hexPrefix?_append backWidth, backNumber]
        simp only [Option.filter_some, isLow, if_true, List.drop_left' backWidth]
      · rename_i unpaired
        exact (unpaired _ behind).elim

theorem stringBody?_spelledText {text spelled : List Char} (each : SpelledText text spelled)
    (rest : List Char) : stringBody? (spelled ++ '"' :: rest) = some (text, rest) := by
  induction each with
  | nil => rw [List.nil_append, stringBody?]
  | cons first later induction =>
      rw [List.append_assoc, stringBody?_spelled first, induction]
      rfl

end DocShell.Json
