import DocShell.Proofs.Token.Number

namespace DocShell

/-! # What stands behind a number

A number ends where the characters behind it cannot belong to it. To find that end, a step
looks up to three characters ahead: behind digits, the letter of an exponent with a sign
belongs to the number only if there is a digit as well. But whatever a step looks at, it
finds the same number again if the text behind the number, or some way behind it, gives way
to something that begins with a character no number goes on with. -/

namespace Text

/-- A run that ends within the front of a text depends on nothing behind that front, unless
it could go on there. -/
theorem takeWhile_of_length_le {test : Char → Bool} {front back gap : List Char}
    (within : ((front ++ back).takeWhile test).length ≤ front.length) (leaves : Leaves test gap) :
    (front ++ gap).takeWhile test = (front ++ back).takeWhile test := by
  induction front with
  | nil =>
      have none := List.eq_nil_of_length_eq_zero (Nat.le_zero.mp within)
      rw [none]
      exact takeWhile_of_leaves leaves
  | cons first front induction =>
      rw [List.cons_append, List.cons_append, List.takeWhile_cons, List.takeWhile_cons] at *
      split
      · rename_i inside
        rw [if_pos inside] at within
        rw [induction (Nat.le_of_succ_le_succ within)]
      · rfl

end Text

namespace Token

/-- A text that begins with nothing that a lexeme could go on with. -/
def Stops (gap : List Char) : Prop :=
  Text.Leaves (fun character => Text.isOptionPart character || character ∈ ['.', '+', '-']) gap

variable {front back gap : List Char}

theorem Stops.apart (stops : Stops gap) : Apart gap := by
  refine stops.of_imp fun character inside => ?_
  simp only [Bool.or_eq_true, decide_eq_true_eq] at inside ⊢
  exact inside.imp_right fun dot => by simp [dot]

theorem Stops.noSign {first : Char} {more : List Char} (stops : Stops (first :: more)) :
    first ≠ '+' ∧ first ≠ '-' := by
  have outside := stops first rfl
  simp only [Bool.or_eq_false_iff, decide_eq_false_iff_not, List.mem_cons, List.not_mem_nil,
    or_false, not_or] at outside
  exact outside.2.2

theorem Stops.noDigit (stops : Stops gap) : Escape.startsWithDigit gap = false := by
  cases gap with
  | nil => rfl
  | cons first more => exact stops.apart.digits first rfl

end Token

/-! ## Numerals

Each reader of a numeral takes the same again in front of `gap`, if what it leaves of the
text reaches back into `front`. -/

namespace Numeral

open Token

theorem takeDigits_of_leaves {rest : List Char} (leaves : Text.Leaves Char.isDigit rest) :
    takeDigits rest = ([], rest) := by
  rw [takeDigits, Text.takeWhile_of_leaves leaves, Text.dropWhile_of_leaves leaves]

def signedDigits (negative : Bool) (text : List Char) : Option (Int × List Char) :=
  match takeDigits text with
  | ([], _) => none
  | (digits, rest) =>
      let size : Int := Text.natOfDigits digits
      some (if negative then -size else size, rest)

variable {front back gap behind : List Char} (stops : Stops gap)

include stops

theorem takeDigits_of_append {digits : List Char}
    (taken : takeDigits (front ++ back) = (digits, behind ++ back)) :
    takeDigits (front ++ gap) = (digits, behind ++ gap) := by
  have parts := takeDigits_append (front ++ back)
  rw [taken, ← List.append_assoc] at parts
  have shared : digits ++ behind = front := List.append_cancel_right parts
  have run : (front ++ back).takeWhile Char.isDigit = digits := congrArg Prod.fst taken
  have same : (front ++ gap).takeWhile Char.isDigit = digits := by
    refine (Text.takeWhile_of_length_le ?_ stops.apart.digits).trans run
    rw [run, ← shared, List.length_append]
    exact Nat.le_add_right _ _
  have whole := takeDigits_append (front ++ gap)
  rw [takeDigits, same, ← shared, List.append_assoc] at whole
  rw [takeDigits, same, ← shared, List.append_assoc]
  exact congrArg (Prod.mk digits) (List.append_cancel_left whole)

theorem takeFraction_of_append {digits : List Char}
    (taken : takeFraction (front ++ back) = (digits, behind ++ back)) :
    takeFraction (front ++ gap) = (digits, behind ++ gap) := by
  have left := congrArg (fun found => found.2.length) taken
  -- With nothing in front, all of `back` is left, so no point was taken from it.
  cases front with
  | nil =>
      have noMark : takeFraction back = ([], back) := by
        unfold takeFraction
        split
        · rename_i more
          have shorter := (suffix_takeDigits more).length_le
          simp only [List.nil_append, takeFraction, List.length_append, List.length_cons] at left
          omega
        · rfl
      rw [List.nil_append, noMark] at taken
      rcases Prod.mk.inj taken with ⟨rfl, rest⟩
      cases List.self_eq_append_left.mp rest
      exact takeFraction_of_apart stops.apart
  | cons first front =>
      by_cases dot : first = '.'
      · cases dot
        exact takeDigits_of_append stops taken
      · have none (rest : List Char) : takeFraction (first :: rest) = ([], first :: rest) := by
          unfold takeFraction
          split
          · rename_i equal
            exact absurd (List.cons.inj equal).1 dot
          · rfl
        rw [List.cons_append, none, ← List.cons_append] at taken ⊢
        rcases Prod.mk.inj taken with ⟨rfl, rest⟩
        rw [List.append_cancel_right rest]

omit stops in
theorem takeExponentDigits_eq (text : List Char) :
    takeExponentDigits text =
      match text with
      | '-' :: rest => signedDigits true rest
      | '+' :: rest => signedDigits false rest
      | text => signedDigits false text := rfl

theorem signedDigits_of_append {negative : Bool} {result : Option (Int × List Char)}
    (taken : signedDigits negative (front ++ back) = result.map (Prod.map id (· ++ back))) :
    signedDigits negative (front ++ gap) = result.map (Prod.map id (· ++ gap)) := by
  have parts := takeDigits_append (front ++ back)
  cases found : takeDigits (front ++ back) with
  | mk digits rest =>
      rw [found] at parts
      rw [signedDigits, found] at taken
      cases digits with
      | nil =>
          have again := takeDigits_of_append stops (found.trans (congrArg (Prod.mk []) parts))
          rw [signedDigits, again]
          cases result with
          | none => rfl
          | some result => cases taken
      | cons digit digits =>
          cases result with
          | none => cases taken
          | some result =>
              rcases result with ⟨exponent, behind⟩
              rcases Prod.mk.inj (Option.some.inj taken) with ⟨rfl, rfl⟩
              rw [signedDigits, takeDigits_of_append stops found]
              rfl

omit stops in
theorem length_lt_of_signedDigits {negative : Bool} {text rest : List Char} {exponent : Int}
    (taken : signedDigits negative text = some (exponent, rest)) : rest.length < text.length := by
  have parts := congrArg List.length (takeDigits_append text)
  rw [signedDigits] at taken
  generalize takeDigits text = found at taken parts
  rcases found with ⟨_ | ⟨digit, digits⟩, behind⟩
  · cases taken
  · cases (Prod.mk.inj (Option.some.inj taken)).2
    simp only [List.length_append, List.length_cons] at parts
    omega

omit stops in
theorem length_lt_of_takeExponentDigits {text rest : List Char} {exponent : Int}
    (taken : takeExponentDigits text = some (exponent, rest)) : rest.length < text.length := by
  rw [takeExponentDigits_eq] at taken
  split at taken
  · exact Nat.lt_succ_of_lt (length_lt_of_signedDigits taken)
  · exact Nat.lt_succ_of_lt (length_lt_of_signedDigits taken)
  · exact length_lt_of_signedDigits taken

theorem takeExponentDigits_eq_none : takeExponentDigits gap = none := by
  have noDigits : signedDigits false gap = none := by
    rw [signedDigits, takeDigits_of_leaves stops.apart.digits]
  rw [takeExponentDigits_eq]
  split
  · exact absurd rfl stops.noSign.2
  · exact absurd rfl stops.noSign.1
  · exact noDigits

theorem takeExponentDigits_of_append {result : Option (Int × List Char)}
    (taken : takeExponentDigits (front ++ back) = result.map (Prod.map id (· ++ back))) :
    takeExponentDigits (front ++ gap) = result.map (Prod.map id (· ++ gap)) := by
  cases front with
  | nil =>
      cases result with
      | none => exact takeExponentDigits_eq_none stops
      | some result =>
          have shorter := length_lt_of_takeExponentDigits taken
          simp only [List.nil_append, List.length_append] at shorter
          omega
  | cons first front =>
      simp only [List.cons_append] at taken ⊢
      by_cases minus : first = '-'
      · cases minus
        exact signedDigits_of_append stops taken
      by_cases plus : first = '+'
      · cases plus
        exact signedDigits_of_append stops taken
      have unsigned (rest : List Char) :
          takeExponentDigits (first :: rest) = signedDigits false (first :: rest) := by
        rw [takeExponentDigits_eq]
        split
        · rename_i equal
          exact absurd (List.cons.inj equal).1 minus
        · rename_i equal
          exact absurd (List.cons.inj equal).1 plus
        · rfl
      rw [unsigned, ← List.cons_append] at taken ⊢
      exact signedDigits_of_append stops taken

theorem takeExponent_of_append {result : Option (Int × List Char)}
    (taken : takeExponent (front ++ back) = result.map (Prod.map id (· ++ back))) :
    takeExponent (front ++ gap) = result.map (Prod.map id (· ++ gap)) := by
  cases front with
  | nil =>
      cases result with
      | none => exact takeExponent_eq_none stops.apart
      | some result =>
          rcases exists_cons_of_takeExponent taken with ⟨mark, more, equal, suffix⟩
          have shorter := suffix.length_le
          have lengths := congrArg List.length equal
          simp only [List.nil_append, List.length_append, List.length_cons] at shorter lengths
          omega
  | cons first front =>
      by_cases isMark : first = 'e' ∨ first = 'E'
      · rcases isMark with rfl | rfl <;> exact takeExponentDigits_of_append stops taken
      · have none (rest : List Char) : takeExponent (first :: rest) = none := by
          unfold takeExponent
          split
          · rename_i equal
            exact absurd (.inl (List.cons.inj equal).1) isMark
          · rename_i equal
            exact absurd (.inr (List.cons.inj equal).1) isMark
          · rfl
        rw [List.cons_append, none] at taken ⊢
        cases result with
        | none => rfl
        | some result => cases taken

theorem takeTail_of_append {whole : List Char} {numeral : Numeral}
    (taken : takeTail whole (front ++ back) = (numeral, behind ++ back)) :
    takeTail whole (front ++ gap) = (numeral, behind ++ gap) := by
  have suffix := suffix_takeTail whole (front ++ back)
  rw [taken] at suffix
  rcases fraction : takeFraction (front ++ back) with ⟨digits, rest⟩
  rw [fraction] at suffix
  rcases suffix with ⟨between, rfl⟩
  rw [← List.append_assoc] at fraction
  rw [takeTail, fraction] at taken
  rw [takeTail, takeFraction_of_append stops fraction]
  cases exponent : takeExponent (between ++ behind ++ back) with
  | none =>
      have again : takeExponent (between ++ behind ++ gap) = Option.map _ none :=
        takeExponent_of_append stops exponent
      simp only [exponent, Prod.mk.injEq] at taken
      simp only [again, Option.map_none]
      rw [taken.1, List.append_cancel_right taken.2]
  | some found =>
      rcases found with ⟨power, rest⟩
      simp only [exponent, Prod.mk.injEq] at taken
      rcases taken with ⟨same, rfl⟩
      have again : takeExponent (between ++ behind ++ gap) = Option.map _ (some (power, behind)) :=
        takeExponent_of_append stops exponent
      simp only [again, Option.map_some, Prod.map, id, same]

omit stops in
theorem parts_of_take? {text rest : List Char} {numeral : Numeral}
    (taken : take? text = some (numeral, rest)) :
    ∃ digits middle, takeDigits text = (digits, middle) ∧
      takeTail digits middle = (numeral, rest) ∧ numeral.digits ≠ [] := by
  rcases whole : takeDigits text with ⟨digits, middle⟩
  rcases tail : takeTail digits middle with ⟨found, left⟩
  rw [take?, whole] at taken
  simp only [tail] at taken
  split at taken
  · cases taken
  · rename_i nonempty
    cases taken
    exact ⟨digits, middle, rfl, tail, nonempty⟩

omit stops in
theorem suffix_take? {text rest : List Char} {numeral : Numeral}
    (taken : take? text = some (numeral, rest)) : rest <:+ text := by
  rcases parts_of_take? taken with ⟨digits, middle, whole, tail, _⟩
  have suffix := (suffix_takeTail digits middle).trans (suffix_takeFraction middle)
  rw [tail] at suffix
  have front := suffix_takeDigits text
  rw [whole] at front
  exact suffix.trans front

theorem take?_of_append {numeral : Numeral}
    (taken : take? (front ++ back) = some (numeral, behind ++ back)) :
    take? (front ++ gap) = some (numeral, behind ++ gap) := by
  rcases parts_of_take? taken with ⟨digits, middle, whole, tail, nonempty⟩
  have suffix := (suffix_takeTail digits middle).trans (suffix_takeFraction middle)
  rw [tail] at suffix
  rcases suffix with ⟨between, rfl⟩
  rw [← List.append_assoc] at whole tail
  rw [take?, takeDigits_of_append stops whole]
  simp only [takeTail_of_append stops tail, nonempty, if_false]

end Numeral

/-! ## Numbers -/

namespace Token

theorem basedLength_of_ne {first : Char} (noZero : first ≠ '0') (rest : List Char) :
    basedLength (first :: rest) = 0 := by
  unfold basedLength
  split
  · rename_i equal
    exact absurd (List.cons.inj equal).1 noZero
  · rfl

theorem basedLength_zero (letter : Char) (rest : List Char) :
    basedLength ('0' :: letter :: rest) =
      match base? letter with
      | some base =>
          let digits := rest.takeWhile fun digit => (Text.digitIn? base digit).isSome
          if digits = [] then 0 else digits.length + 2
      | none => 0 := rfl

/-- A number in another base has its zero, its letter and a digit. -/
theorem three_le_basedLength {text : List Char} (based : basedLength text ≠ 0) :
    3 ≤ basedLength text ∧ ∃ letter base rest, text = '0' :: letter :: rest ∧
      base? letter = some base := by
  unfold basedLength at based ⊢
  split at based
  · rename_i letter rest
    cases found : base? letter with
    | none => simp [found] at based
    | some base =>
        simp only [found] at based ⊢
        refine ⟨?_, letter, base, rest, rfl, found⟩
        split at based
        · exact absurd rfl based
        · rename_i nonempty
          have positive := List.length_pos_iff.mpr nonempty
          rw [if_neg nonempty]
          omega
  · exact absurd rfl based

variable {front back gap : List Char} (stops : Stops gap)

include stops

theorem wordLength_of_append
    (within : Text.wordLength (front ++ back) ≤ front.length) :
    Text.wordLength (front ++ gap) = Text.wordLength (front ++ back) := by
  cases front with
  | nil => rw [Nat.le_zero.mp within]; exact stops.apart.wordLength
  | cons first front =>
      rw [List.cons_append, Text.wordLength] at within
      rw [List.cons_append, List.cons_append, Text.wordLength, Text.wordLength]
      split
      · rename_i starts
        rw [if_pos starts] at within
        rw [Text.takeWhile_of_length_le (Nat.le_of_succ_le_succ within) stops.apart.word]
      · rfl

theorem basedLength_zero_gap : basedLength ('0' :: gap) = 0 := by
  cases gap with
  | nil => rfl
  | cons letter more =>
      rw [basedLength_zero]
      cases found : base? letter with
      | none => rfl
      | some base =>
          have inside : ∀ letter ∈ ['x', 'X', 'o', 'O', 'b', 'B'],
              Text.isWordPart letter = true := List.all_eq_true.mp (by decide +kernel)
          have outside := stops.apart.word letter rfl
          rw [inside letter (mem_of_base? found)] at outside
          cases outside

theorem basedLength_of_append (nonempty : front ≠ [])
    (within : basedLength (front ++ back) ≤ front.length) :
    basedLength (front ++ gap) = basedLength (front ++ back) := by
  rcases front with _ | ⟨first, front⟩
  · exact absurd rfl nonempty
  -- What stands behind `front` can neither name a base nor go on with its digits.
  by_cases zero : first = '0'
  · cases zero
    cases front with
    | nil =>
        rw [List.singleton_append, basedLength_zero_gap stops]
        by_contra based
        have three := (three_le_basedLength (Ne.symm based)).1
        simp only [List.length_singleton] at within
        omega
    | cons letter front =>
        simp only [List.cons_append, basedLength_zero] at within ⊢
        cases found : base? letter with
        | none => rfl
        | some base =>
            have leaves : Text.Leaves (fun digit => (Text.digitIn? base digit).isSome) gap :=
              stops.apart.word.of_imp fun _ => isWordPart_of_digitIn?
            have short : ((front ++ back).takeWhile
                fun digit => (Text.digitIn? base digit).isSome).length ≤ front.length := by
              simp only [found, List.length_cons] at within
              split at within
              · rename_i none
                rw [none]
                exact Nat.zero_le _
              · exact Nat.le_of_add_le_add_right within
            simp only [Text.takeWhile_of_length_le short leaves]
  · rw [List.cons_append, List.cons_append, basedLength_of_ne zero, basedLength_of_ne zero]

theorem brokenLength_of_append {numeral : Numeral} {behind : List Char}
    (taken : Numeral.take? (front ++ back) = some (numeral, behind ++ back))
    (within : brokenLength (front ++ back) ≤ front.length) :
    brokenLength (front ++ gap) = brokenLength (front ++ back) := by
  rcases Numeral.parts_of_take? taken with ⟨digits, middle, whole, tail, _⟩
  rcases fraction : Numeral.takeFraction middle with ⟨point, rest⟩
  have suffix := Numeral.suffix_takeTail digits middle
  have suffixFraction := Numeral.suffix_takeFraction middle
  rw [tail, fraction] at suffix
  rw [fraction] at suffixFraction
  -- Behind the exponent comes `back`, so it comes behind everything before the exponent too.
  rcases (List.suffix_append behind back).trans suffix with ⟨rest, rfl⟩
  rcases (List.suffix_append rest back).trans suffixFraction with ⟨middle, rfl⟩
  have lengths := congrArg List.length (Numeral.takeDigits_append (front ++ back))
  have shorter := (Numeral.suffix_takeFraction (middle ++ back)).length_le
  rw [brokenLength, whole] at within
  rw [brokenLength, brokenLength, whole, Numeral.takeDigits_of_append stops whole]
  rw [whole] at lengths
  rw [fraction] at shorter
  simp only [fraction, Numeral.takeFraction_of_append stops fraction, List.length_append]
    at within shorter lengths ⊢
  by_cases none : digits = []
  · rw [if_pos (.inl none), if_pos (.inl none)]
  · have word : Text.wordLength (rest ++ back) ≤ rest.length := by
      by_cases zero : Text.wordLength (rest ++ back) = 0
      · omega
      · rw [if_neg (by simp [none, zero])] at within
        omega
    rw [wordLength_of_append stops word]
    split
    · rfl
    · omega

omit stops in
/-- A number that ends within `front` begins with a numeral that does. -/
theorem exists_take?_of_number {literal : NumberLiteral} {count : Nat}
    (found : number (front ++ back) = .ok (literal, count)) (within : count ≤ front.length) :
    basedLength (front ++ back) ≤ count ∧ brokenLength (front ++ back) ≤ count ∧
      ∃ numeral behind, Numeral.take? (front ++ back) = some (numeral, behind ++ back) := by
  have reaches (rest : List Char) (suffix : rest <:+ front ++ back)
      (long : back.length ≤ rest.length) : ∃ behind, rest = behind ++ back := by
    rcases List.suffix_of_suffix_length_le (List.suffix_append front back) suffix long with
      ⟨behind, equal⟩
    exact ⟨behind, equal.symm⟩
  -- A number in a base still has a decimal reading, the zero in front of the letter.
  rw [number] at found
  split at found
  · cases found
  rename_i noBroken
  have broken : brokenLength (front ++ back) ≤
      max (basedLength (front ++ back)) (decimalLength (front ++ back)) := Nat.not_lt.mp noBroken
  split at found
  · rename_i longer
    cases found
    have based : basedLength (front ++ back) ≠ 0 := Nat.ne_zero_of_lt longer
    rcases three_le_basedLength based with ⟨three, letter, base, rest, text, isBase⟩
    have lengths := congrArg List.length text
    have taken := take?_based isBase rest
    rw [← text] at taken
    rcases reaches (letter :: rest) (text ▸ List.suffix_cons _ _)
      (by simp only [List.length_append, List.length_cons] at lengths ⊢; omega) with
      ⟨behind, equal⟩
    exact ⟨Nat.le_refl _, broken.trans (Nat.max_le.mpr ⟨Nat.le_refl _, Nat.le_of_lt longer⟩), _,
      behind, taken.trans (by rw [equal])⟩
  · rename_i noLonger
    split at found
    · rename_i numeral rest taken
      split at found
      · cases found
      cases found
      have long : back.length ≤ rest.length := by
        rw [decimalLength, taken] at within
        simp only [List.length_append] at within
        omega
      rcases reaches rest (Numeral.suffix_take? taken) long with ⟨behind, rfl⟩
      exact ⟨by omega, by omega, numeral, behind, taken⟩
    · cases found

theorem number_of_append (nonempty : front ≠ []) {literal : NumberLiteral} {count : Nat}
    (found : number (front ++ back) = .ok (literal, count)) (within : count ≤ front.length) :
    number (front ++ gap) = .ok (literal, count) := by
  rcases exists_take?_of_number found within with ⟨based, broken, numeral, behind, taken⟩
  have again := Numeral.take?_of_append stops taken
  have decimal : decimalLength (front ++ gap) = decimalLength (front ++ back) := by
    rw [decimalLength, decimalLength, again, taken]
    simp only [List.length_append]
    omega
  have start (length : Nat) (short : length ≤ front.length) :
      (front ++ gap).take length = (front ++ back).take length := by
    rw [List.take_append_of_le_length short, List.take_append_of_le_length short]
  have letter (long : 2 ≤ front.length) :
      (front ++ gap).tail.head? = (front ++ back).tail.head? := by
    rcases front with _ | ⟨first, _ | ⟨second, front⟩⟩
    · cases long
    · exact absurd long (Nat.not_succ_le_self 1)
    · rfl
  -- All lengths are known again, so the same reading wins, and only what it cuts out is compared.
  rw [number, taken] at found
  rw [number, again, decimal, basedLength_of_append stops nonempty (based.trans within),
    brokenLength_of_append stops taken (broken.trans within)]
  split at found
  · cases found
  rename_i noBroken
  rw [if_neg noBroken]
  split at found
  · rename_i longer
    have three := (three_le_basedLength (Nat.ne_zero_of_lt longer)).1
    rw [if_pos longer, start _ (based.trans within), letter (by omega)]
    exact found
  · rename_i noLonger
    rw [if_neg noLonger]
    have same : count = decimalLength (front ++ back) := by
      simp only at found
      split at found
      · cases found
      · cases found
        rfl
    rw [start _ (same ▸ within)]
    exact found

end Token

end DocShell
