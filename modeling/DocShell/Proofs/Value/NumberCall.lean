import DocShell.Proofs.Token.Number
import DocShell.Proofs.Value.RoundTrip

namespace DocShell

/-! # Constructors called with a signed number

A constructor is given the double of a number behind any run of signs, and the text of the
number with at most one minus sign in front of it. Each sign takes a level. -/

namespace Expr

structure Spells (number : Double) (spelling : String) (expr : Expr) : Prop where
  means : Means (.number number) expr
  spelled : expr.numberSpelling? = some spelling

theorem Spells.plus {number : Double} {spelling : String} {operand : Expr}
    (spells : Spells number spelling operand) (position : Position) :
    Spells number spelling (.signed position .plus operand) := by
  rcases spells with ⟨⟨meaning, equal, value⟩, spelled⟩
  refine ⟨⟨.data (.number number), ?_, rfl⟩, spelled⟩
  rw [Expr.meaning, equal]
  change (Expr.signedValue position .plus meaning.value).bind _ = _
  rw [value]
  rfl

theorem Spells.minus {number : Double} {spelling : String} {operand : Expr}
    (spells : Spells number spelling operand) (position : Position) :
    Spells number.neg (negatedSpelling spelling) (.signed position .minus operand) := by
  rcases spells with ⟨⟨meaning, equal, value⟩, spelled⟩
  refine ⟨⟨.data (.number number.neg), ?_, rfl⟩, ?_⟩
  · rw [Expr.meaning, equal]
    change (Expr.signedValue position .minus meaning.value).bind _ = _
    rw [value]
    rfl
  · rw [numberSpelling?, spelled, Option.map_some]

end Expr

namespace Sign

def appliedToDouble (signs : List Sign) (number : Double) : Double :=
  if negates signs then number.neg else number

def appliedToText (signs : List Sign) (text : List Char) : List Char :=
  if negates signs then '-' :: text else text

theorem negatedSpelling_text {text : List Char} (unsigned : text.head? ≠ some '-') :
    Expr.negatedSpelling (String.ofList text) = String.ofList ('-' :: text) := by
  rw [Expr.negatedSpelling, String.toList_ofList]
  split
  · exact absurd rfl unsigned
  · rw [← String.toList_inj, String.toList_append, String.toList_ofList, String.toList_ofList,
      String.toList_ofList]
    rfl

theorem negatedSpelling_minus (text : List Char) :
    Expr.negatedSpelling (String.ofList ('-' :: text)) = String.ofList text := by
  rw [Expr.negatedSpelling, String.toList_ofList]
  rfl

end Sign

namespace WrittenNumber

theorem head?_text_ne (written : WrittenNumber) : written.text.head? ≠ some '-' := by
  rcases written.exists_start [] with ⟨first, more, equal, starts⟩
  rw [equal]
  rintro ⟨⟩
  rcases starts with digit | ⟨point, _⟩
  · exact absurd digit (by decide)
  · exact absurd point (by decide)

end WrittenNumber

namespace Reader

def signedPhrase (signs : List Sign) (written : WrittenNumber) : Phrase Expr where
  lexemes := signs.map (.mark ·.mark) ++ [.number written.literal]
  need := signs.length + 1
  means := Expr.Spells (Sign.appliedToDouble signs written.double)
    (String.ofList (Sign.appliedToText signs written.text))

theorem readable_signedPhrase (signs : List Sign) (written : WrittenNumber) :
    (signedPhrase signs written).Readable := by
  induction signs with
  | nil =>
      have token : Phrase.Readable ⟨[.number written.literal], 1, fun expr =>
          ∃ position, expr = .literal position (.number written.literal)⟩ :=
        readable_token (.literal · (.number written.literal)) (by simp [stops]) rfl
          fun _ _ _ _ token rest equal => by rw [outcome_primary, equal]
      refine token.imp fun expr read => ?_
      rcases read with ⟨position, rfl⟩
      exact ⟨⟨.data (.number written.double), rfl, rfl⟩, rfl⟩
  | cons sign signs induction =>
      refine (induction.signed sign).imp fun expr read => ?_
      rcases read with ⟨position, operand, rfl, spells⟩
      cases sign with
      | plus => exact spells.plus position
      | minus =>
          have negated := spells.minus position
          change Expr.Spells (Sign.appliedToDouble (.minus :: signs) written.double)
            (String.ofList (Sign.appliedToText (.minus :: signs) written.text)) _
          rw [Sign.appliedToDouble, Sign.appliedToText, Sign.negates]
          rw [Sign.appliedToDouble, Sign.appliedToText] at negated
          cases negative : Sign.negates signs with
          | false =>
              simpa only [negative, Bool.false_eq_true, if_false, Bool.not_false, if_true,
                Sign.negatedSpelling_text written.head?_text_ne] using negated
          | true =>
              simpa only [negative, if_true, Double.neg_neg, Bool.not_true, Bool.false_eq_true,
                if_false, Sign.negatedSpelling_minus] using negated

end Reader

namespace Value

open Token Reader

def numberCall (builder : Constructor) (signs : List Sign) (written : WrittenNumber) : String :=
  String.ofList (writtenCall builder.name (signs.map Sign.character ++ written.text))

def numberCallNeed (signs : List Sign) : Nat := signs.length + 3

theorem ofName?_name (builder : Constructor) :
    Meaning.ofName? builder.name = some (.constructor builder) := by
  cases builder <;> rfl

theorem evaluate_call (builder : Constructor) {number : Double} {spelling : String}
    {argument : Expr} (spells : argument.Spells number spelling) (position start : Position) :
    (Expr.call position (.name start builder.name) [argument]).evaluate =
      (builder.build position [⟨.number number, argument.position, some spelling⟩]).map plain := by
  have nothing : Expr.argumentValues [] = .ok [] := rfl
  have arguments := argumentValues_cons spells.means nothing
  rw [spells.spelled] at arguments
  rw [Expr.evaluate, Expr.meaning, Expr.meaning, ofName?_name, arguments]
  change (((builder.build position _).bind fun value => .ok (.data value)).bind fun meaning =>
    .ok (Meaning.value meaning).plain) = _
  cases builder.build position [⟨.number number, argument.position, some spelling⟩] <;> rfl

/-- A call with a number is what its constructor makes of the number, if there are levels
enough. -/
theorem ofShell_numberCall (builder : Constructor) (signs : List Sign) (written : WrittenNumber)
    (limit : Nat) :
    (numberCallNeed signs ≤ limit ∧ ∃ position place,
      ofShell limit (numberCall builder signs written) =
        (builder.build position [⟨.number (Sign.appliedToDouble signs written.double), place,
          some (String.ofList (Sign.appliedToText signs written.text))⟩]).map plain) ∨
    (¬numberCallNeed signs ≤ limit ∧ ∃ position,
      ofShell limit (numberCall builder signs written) =
        .error (.unreadable (.tooDeep limit) position)) := by
  have noKeyword : keyword? builder.name = none := by cases builder <;> rfl
  have noNew : builder.name ≠ "new" := by cases builder <;> decide
  have nonempty : builder.name.toList ≠ [] := by cases builder <;> decide
  have letters : builder.name.toList.all Char.isAlpha = true := by cases builder <;> decide
  have call := readable_call noKeyword noNew
    (List.forall_mem_singleton.mpr (readable_signedPhrase signs written))
  have text : Token.Spells (writtenCall builder.name (signs.map Sign.character ++ written.text))
      (callLexemes builder.name [(signedPhrase signs written).lexemes]) [] :=
    spells_call nonempty letters (fun rest apart => spells_signs signs (written.spells apart)) []
  rcases text.scan with ⟨tokens, finish, scanned, lexemes⟩
  have need : 2 + deepest [signedPhrase signs written] = numberCallNeed signs := by
    simp only [deepest, signedPhrase, numberCallNeed]
    omega
  rw [numberCall, ofShell_of_tokens scanned, ← need]
  rcases ofTokens_of_readable call lexemes limit finish with
    ⟨room, expr, ⟨position, start, given, rfl, each⟩, read⟩ | ⟨short, position, failed⟩
  · rcases each with _ | ⟨spells, _ | _⟩
    have equal := evaluate_call builder spells position start
    rw [read]
    exact .inl ⟨room, position, _, equal⟩
  · refine .inr ⟨short, position, ?_⟩
    rw [failed]
    rfl

end Value

end DocShell
