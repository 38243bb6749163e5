import DocShell.Proofs.Number.Behind
import DocShell.Proofs.Scalar.Pattern

namespace DocShell.Token

/-! # What stands behind a lexeme

A step of the scan finds the same lexeme again if the text behind that lexeme, or some way
behind it, gives way to something that no lexeme goes on with. -/

variable {front back gap : List Char}

/-! ## Extents -/

/-- A character that neither stands behind everything as a backslash nor escapes another. -/
theorem ne_backslash_of_closingQuote? {character : Char} {rest : List Char}
    (noEnd : character = '\\' → rest = [] → False)
    (noPair : ∀ escaped more, character = '\\' → rest = escaped :: more → False) :
    character ≠ '\\' := by
  intro slash
  cases rest with
  | nil => exact noEnd slash rfl
  | cons escaped more => exact noPair escaped more slash rfl

theorem closingQuote?_of_append {quote : Char} {count : Nat}
    (found : closingQuote? quote (front ++ back) = some count) (within : count < front.length)
    (other : List Char) : closingQuote? quote (front ++ other) = some count := by
  generalize whole : front ++ back = text at found
  -- An escape lies in `front` as a whole, since the quote that closes comes behind it.
  fun_induction closingQuote? quote text generalizing front count with
  | case1 => cases found
  | case2 => cases found
  | case3 escaped rest induction =>
      rcases Option.map_eq_some_iff.mp found with ⟨inner, closes, rfl⟩
      rcases front with _ | ⟨first, _ | ⟨second, front⟩⟩
      · cases within
      · exact absurd (Nat.lt_of_succ_lt_succ within) (Nat.not_lt_zero _)
      · cases whole
        have short : inner < front.length := Nat.lt_of_add_lt_add_right within
        exact congrArg (Option.map (· + 2)) (induction short rfl closes)
  | case4 rest noEnd noPair =>
      cases found
      rcases front with _ | ⟨first, front⟩
      · cases within
      · cases whole
        have plain := ne_backslash_of_closingQuote? noEnd noPair
        rw [List.cons_append, closingQuote?, if_pos rfl]
        · exact fun slash _ => plain slash
        · exact fun _ _ slash _ => plain slash
  | case5 => cases found
  | case6 character rest noEnd noPair noQuote noFeed induction =>
      rcases Option.map_eq_some_iff.mp found with ⟨inner, closes, rfl⟩
      rcases front with _ | ⟨first, front⟩
      · cases within
      · cases whole
        have plain := ne_backslash_of_closingQuote? noEnd noPair
        have short : inner < front.length := Nat.lt_of_succ_lt_succ within
        rw [List.cons_append, closingQuote?_cons noQuote plain noFeed, induction short rfl closes]
        rfl

theorem slashFrom?_of_append {escaped inClass : Bool} {count : Nat}
    (found : slashFrom? escaped inClass (front ++ back) = some count)
    (within : count < front.length) (other : List Char) :
    slashFrom? escaped inClass (front ++ other) = some count := by
  induction front generalizing escaped inClass count with
  | nil => cases within
  | cons first front induction =>
      rw [List.cons_append, slashFrom?] at found ⊢
      split at found
      · cases found
      rename_i noFeed
      rw [if_neg noFeed]
      split at found
      · rename_i closes
        rwa [if_pos closes]
      · rename_i noClose
        rw [if_neg noClose]
        rcases Option.map_eq_some_iff.mp found with ⟨inner, closes, rfl⟩
        rw [induction closes (Nat.lt_of_succ_lt_succ within)]
        rfl

theorem two_le_commentLength? {text : List Char} {count : Nat}
    (found : commentLength? text = some count) : 2 ≤ count := by
  fun_induction commentLength? text generalizing count with
  | case1 => cases found; exact Nat.le_refl 2
  | case2 first rest noClose induction =>
      rcases Option.map_eq_some_iff.mp found with ⟨inner, closes, rfl⟩
      exact Nat.le_succ_of_le (induction closes)
  | case3 => cases found

theorem commentLength?_of_append {count : Nat}
    (found : commentLength? (front ++ back) = some count) (within : count ≤ front.length)
    (other : List Char) : commentLength? (front ++ other) = some count := by
  generalize whole : front ++ back = text at found
  fun_induction commentLength? text generalizing front count with
  | case1 rest =>
      cases found
      rcases front with _ | ⟨first, _ | ⟨second, front⟩⟩
      · cases within
      · exact absurd within (Nat.not_succ_le_self 1)
      · cases whole
        rfl
  | case2 first rest noClose induction =>
      rcases Option.map_eq_some_iff.mp found with ⟨inner, closes, rfl⟩
      have two := two_le_commentLength? closes
      rcases front with _ | ⟨first, _ | ⟨second, front⟩⟩
      · cases within
      · simp only [List.length_singleton] at within
        omega
      · cases whole
        have again := induction (Nat.le_of_succ_le_succ within) rfl closes
        rw [List.cons_append, commentLength?, again]
        · rfl
        · intro more star equal
          cases equal
          exact noClose _ star rfl
  | case3 => cases found

/-! ## Steps -/

section

variable (stops : Stops gap)

include stops

theorem number_dot : number ('.' :: gap) = .error .unexpectedCharacter := by
  have fraction : Numeral.takeFraction ('.' :: gap) = ([], gap) :=
    Numeral.takeDigits_of_leaves stops.apart.digits
  have taken : Numeral.take? ('.' :: gap) = none := by
    have whole : Numeral.takeDigits ('.' :: gap) = ([], '.' :: gap) := rfl
    rw [Numeral.take?, whole]
    simp only [Numeral.takeTail, fraction, Numeral.takeExponent_eq_none stops.apart]
    rfl
  have based : basedLength ('.' :: gap) = 0 := basedLength_of_ne (by decide) gap
  have broken : brokenLength ('.' :: gap) = 0 := by
    rw [brokenLength]
    exact if_pos (.inl rfl)
  rw [number, decimalLength, taken, based, broken]
  rfl

theorem startsNumber_of_append {first : Char} {literal : NumberLiteral} {count : Nat}
    (starts : StartsNumber first (front ++ back))
    (found : number (first :: (front ++ gap)) = .ok (literal, count)) :
    StartsNumber first (front ++ gap) := by
  rcases starts with digit | ⟨rfl, digit⟩
  · exact .inl digit
  · cases front with
    | nil => cases (number_dot stops).symm.trans found
    | cons next front => exact .inr ⟨rfl, digit⟩

theorem not_startsNumber_of_append {first : Char} (no : ¬StartsNumber first (front ++ back)) :
    ¬StartsNumber first (front ++ gap) := by
  rintro (digit | ⟨rfl, digit⟩)
  · exact no (.inl digit)
  · cases front with
    | nil => cases stops.noDigit.symm.trans digit
    | cons next front => exact no (.inr ⟨rfl, digit⟩)

omit stops in
theorem quotation_of_append {quote : Char} {lexeme : Lexeme} {count : Nat}
    (found : quotation quote (front ++ back) = .ok (.lexeme lexeme, count))
    (within : count ≤ front.length) :
    quotation quote (front ++ gap) = .ok (.lexeme lexeme, count) := by
  cases closes : closingQuote? quote (front ++ back) with
  | none => simp [quotation, closes] at found
  | some inner =>
      have short : inner < front.length := by
        simp only [quotation, closes] at found
        split at found
        · cases found
          exact within
        · cases found
      rw [quotation, closes] at found
      rw [quotation, closingQuote?_of_append closes short gap]
      simp only at found ⊢
      rw [List.take_append_of_le_length (Nat.le_of_lt short)] at found ⊢
      exact found

omit stops in
theorem slash_regex {rest : List Char}
    (opens : ∀ first ∈ rest.head?, first ≠ '/' ∧ first ≠ '*') :
    slash rest =
      match closingSlash? false rest with
      | some count =>
          let options := (rest.drop (count + 1)).takeWhile Text.isOptionPart
          .ok (.lexeme (.regex (String.ofList (rest.take count)) (String.ofList options)),
            count + 1 + options.length)
      | none => .error .openRegex := by
  unfold slash
  split
  · exact absurd rfl (opens '/' rfl).1
  · exact absurd rfl (opens '*' rfl).2
  · rfl

omit stops in
theorem opens_of_slash {rest : List Char} {lexeme : Lexeme} {count : Nat}
    (found : slash rest = .ok (.lexeme lexeme, count)) :
    ∀ first ∈ rest.head?, first ≠ '/' ∧ first ≠ '*' := by
  intro first begins
  rcases List.head?_eq_some_iff.mp begins with ⟨more, rfl⟩
  refine ⟨?_, ?_⟩
  · rintro rfl
    cases found
  · rintro rfl
    rw [slash] at found
    split at found <;> cases found

theorem slash_of_append {lexeme : Lexeme} {count : Nat}
    (found : slash (front ++ back) = .ok (.lexeme lexeme, count))
    (within : count ≤ front.length) :
    slash (front ++ gap) = .ok (.lexeme lexeme, count) := by
  have opens := opens_of_slash found
  rw [slash_regex opens] at found
  cases closes : closingSlash? false (front ++ back) with
  | none => simp [closes] at found
  | some inner =>
      simp only [closes, Except.ok.injEq, Prod.mk.injEq, Piece.lexeme.injEq] at found
      rcases found with ⟨rfl, rfl⟩
      have short : inner + 1 ≤ front.length := Nat.le_of_add_right_le within
      have head (rest : List Char) : (front ++ rest).head? = front.head? := by
        cases front with
        | nil => cases short
        | cons first front => rfl
      have again : closingSlash? false (front ++ gap) = some inner := by
        rw [closingSlash?_eq] at closes ⊢
        exact slashFrom?_of_append closes short gap
      rw [head] at opens
      rw [slash_regex (by rwa [head]), again]
      simp only [List.take_append_of_le_length (Nat.le_of_succ_le short),
        List.drop_append_of_le_length short]
      rw [List.drop_append_of_le_length short] at within
      rw [Text.takeWhile_of_length_le _ stops.apart.options]
      rw [List.length_drop]
      omega

/-- A step finds the same lexeme again, if the lexeme ends within `front`. -/
theorem step_of_append {first : Char} {lexeme : Lexeme} {count : Nat}
    (found : step first (front ++ back) = .ok (.lexeme lexeme, count))
    (within : count ≤ front.length) :
    step first (front ++ gap) = .ok (.lexeme lexeme, count) := by
  -- Whether a number starts is not seen from the first character alone, so this is settled first.
  by_cases starts : StartsNumber first (front ++ back)
  · rw [step_of_startsNumber starts] at found
    split at found
    · rename_i literal taken number
      cases found
      have again := number_of_append stops (List.cons_ne_nil first front) number
        (Nat.le_succ_of_pred_le within)
      rw [step_of_startsNumber (startsNumber_of_append stops starts again)]
      rw [List.cons_append] at again
      rw [again]
    · cases found
  have noStart := not_startsNumber_of_append stops starts
  rw [StartsNumber] at starts noStart
  unfold step at found ⊢
  split at found
  · cases found
  rename_i noBlank
  rw [if_neg noBlank]
  rw [if_neg noStart]
  split at found
  · rename_i isQuote
    rw [if_pos isQuote]
    exact quotation_of_append found within
  rename_i noQuote
  rw [if_neg noQuote]
  split at found
  · rename_i isSlash
    rw [if_pos isSlash]
    exact slash_of_append stops found within
  rename_i noSlash
  rw [if_neg noSlash]
  split at found
  · rename_i word
    rw [if_pos word]
    cases found
    rw [Text.takeWhile_of_length_le within stops.apart.word]
  · rename_i noWord
    rw [if_neg noWord]
    exact found

end

/-! ## How far a step reaches -/

theorem closingQuote?_lt {quote : Char} {text : List Char} {count : Nat}
    (found : closingQuote? quote text = some count) : count < text.length := by
  fun_induction closingQuote? quote text generalizing count with
  | case1 => cases found
  | case2 => cases found
  | case3 escaped rest induction =>
      rcases Option.map_eq_some_iff.mp found with ⟨inner, closes, rfl⟩
      exact Nat.add_lt_add_right (induction closes) 2
  | case4 => cases found; exact Nat.zero_lt_succ _
  | case5 => cases found
  | case6 character rest noEnd noPair noQuote noFeed induction =>
      rcases Option.map_eq_some_iff.mp found with ⟨inner, closes, rfl⟩
      exact Nat.add_lt_add_right (induction closes) 1

theorem slashFrom?_lt {escaped inClass : Bool} {text : List Char} {count : Nat}
    (found : slashFrom? escaped inClass text = some count) : count < text.length := by
  fun_induction slashFrom? escaped inClass text generalizing count with
  | case1 => cases found
  | case2 => cases found
  | case3 => cases found; exact Nat.zero_lt_succ _
  | case4 escaped inClass character rest noFeed noClose induction =>
      rcases Option.map_eq_some_iff.mp found with ⟨inner, closes, rfl⟩
      exact Nat.add_lt_add_right (induction closes) 1

theorem commentLength?_le {text : List Char} {count : Nat}
    (found : commentLength? text = some count) : count ≤ text.length := by
  fun_induction commentLength? text generalizing count with
  | case1 rest => cases found; simp
  | case2 first rest noClose induction =>
      rcases Option.map_eq_some_iff.mp found with ⟨inner, closes, rfl⟩
      exact Nat.succ_le_succ (induction closes)
  | case3 => cases found

theorem basedLength_le (text : List Char) : basedLength text ≤ text.length := by
  by_cases none : basedLength text = 0
  · rw [none]
    exact Nat.zero_le _
  · rcases (three_le_basedLength none).2 with ⟨letter, base, rest, rfl, isBase⟩
    simp only [basedLength_zero, isBase]
    split
    · exact Nat.zero_le _
    · exact Nat.add_le_add_right (List.takeWhile_prefix _).length_le 2

theorem number_le {text : List Char} {literal : NumberLiteral} {count : Nat}
    (found : number text = .ok (literal, count)) : count ≤ text.length := by
  rw [number] at found
  split at found
  · cases found
  split at found
  · cases found
    exact basedLength_le text
  · rw [decimalLength] at found
    split at found
    · split at found
      · cases found
      · cases found
        exact Nat.sub_le _ _
    · cases found

theorem slash_le {rest : List Char} {piece : Piece} {count : Nat}
    (found : slash rest = .ok (piece, count)) : count ≤ rest.length := by
  unfold slash at found
  split at found
  · cases found
    exact Nat.succ_le_succ (List.takeWhile_prefix _).length_le
  · split at found
    · rename_i closes
      cases found
      exact Nat.succ_le_succ (commentLength?_le closes)
    · cases found
  · split at found
    · rename_i inner closes
      rw [closingSlash?_eq] at closes
      have short := slashFrom?_lt closes
      have options : ((rest.drop (inner + 1)).takeWhile Text.isOptionPart).length ≤
          (rest.drop (inner + 1)).length := (List.takeWhile_prefix _).length_le
      cases found
      rw [List.length_drop] at options
      omega
    · cases found

/-- What a step finds is part of the text. -/
theorem step_le {first : Char} {rest : List Char} {piece : Piece} {count : Nat}
    (found : step first rest = .ok (piece, count)) : count ≤ rest.length := by
  unfold step at found
  split at found
  · cases found
    exact (List.takeWhile_prefix _).length_le
  split at found
  · split at found
    · rename_i read
      cases found
      exact Nat.pred_le_pred (number_le read)
    · cases found
  split at found
  · unfold quotation at found
    split at found
    · rename_i closes
      split at found
      · cases found
        exact closingQuote?_lt closes
      · cases found
    · cases found
  split at found
  · exact slash_le found
  split at found
  · cases found
    exact (List.takeWhile_prefix _).length_le
  · split at found
    · cases found
      exact Nat.zero_le _
    · cases found

end DocShell.Token
