import DocShell.Proofs.Number.DigitByDigit
import DocShell.Proofs.Value.NumberLong

namespace DocShell

/-! # Numbers in other bases and in decimal

The decimal text of a whole number is read as the closest double. In another base the
number is read as that double too, unless a tie is lost on the way through its digits. -/

/-! ## Numbers alone -/

namespace Value

open Reader

theorem ofShell_text (written : WrittenNumber) {limit : Nat} (room : 1 ≤ limit) :
    ofShell limit (String.ofList written.text) = .ok (number written.double).plain := by
  rcases (written.spells Token.apart_nil).scan with ⟨tokens, finish, scanned, lexemes⟩
  rw [ofShell_of_tokens scanned]
  rcases ofTokens_of_readable (readable_number written.literal) lexemes limit finish with
    ⟨_, expr, ⟨meaning, evaluated, value⟩, read⟩ | ⟨short, _⟩
  · rw [read]
    change expr.evaluate = _
    rw [Expr.evaluate, evaluated]
    exact congrArg (fun value : Value => Except.ok value.plain) value
  · exact absurd room short

/-- Only infinity is not kept, so numbers without a sign stay apart as plain data. -/
theorem plain_number_inj {left right : Double} (first : left.Unsigned) (second : right.Unsigned) :
    (number left).plain = (number right).plain ↔ left = right := by
  refine ⟨fun same => ?_, fun same => same ▸ rfl⟩
  rcases first with ⟨magnitude, rfl⟩ | rfl <;> rcases second with ⟨other, rfl⟩ | rfl
  · exact number.inj same
  · cases same
  · cases same
  · rfl

end Value

/-! ## Bases -/

section

variable {letter : Char} {base : Nat} {digits : List Char}
  (isBase : Token.base? letter = some base) (nonempty : digits ≠ [])
  (inside : ∀ digit ∈ digits, (Text.digitIn? base digit).isSome = true)

include isBase inside

theorem Token.basedValue_eq_iff :
    basedValue base digits = Double.ofInt (Text.natInBase base digits) ↔
      ¬LosesTie base digits := by
  have power : base = 2 ^ 4 ∨ base = 2 ^ 3 ∨ base = 2 ^ 1 := by
    unfold base? at isBase
    grind
  rcases power with rfl | rfl | rfl <;> exact basedValue_eq_ofInt_iff (by decide) inside

namespace Value

include nonempty

theorem ofShell_based_eq_iff {limit : Nat} (room : 1 ≤ limit) :
    ofShell limit (String.ofList ('0' :: letter :: digits)) =
        ofShell limit (String.ofList (Text.ofNat (Text.natInBase base digits))) ↔
      ¬Token.LosesTie base digits := by
  have based := ofShell_text (.based letter base digits isBase nonempty inside) room
  have decimal := ofShell_text (.ofNat (Text.natInBase base digits)) room
  have unsigned := WrittenNumber.unsigned_double (.based letter base digits isBase nonempty inside)
  rw [WrittenNumber.text_ofNat, WrittenNumber.double_ofNat] at decimal
  rw [WrittenNumber.text] at based
  rw [based, decimal, ← Token.basedValue_eq_iff isBase inside, Except.ok.injEq]
  exact plain_number_inj unsigned (Double.unsigned_ofInt _)

/-- A whole number in decimal is read as the double closest to it, and in another base as
the same double, but for a tie that is lost. -/
theorem ofShell_based_eq_decimal_iff {limit : Nat} (room : 1 ≤ limit) :
    (∃ double, ofShell limit (String.ofList (Text.ofNat (Text.natInBase base digits))) =
        .ok (number double).plain ∧ double.IsClosest (Text.natInBase base digits)) ∧
      (ofShell limit (String.ofList ('0' :: letter :: digits)) =
          ofShell limit (String.ofList (Text.ofNat (Text.natInBase base digits))) ↔
        ¬Token.LosesTie base digits) := by
  have decimal := ofShell_text (.ofNat (Text.natInBase base digits)) room
  rw [WrittenNumber.text_ofNat, WrittenNumber.double_ofNat] at decimal
  exact ⟨⟨_, decimal, Double.isClosest_ofInt _⟩,
    ofShell_based_eq_iff isBase nonempty inside room⟩

end Value

end

namespace Value

/-- A tie at the last digit, with nothing behind it to be lost. -/
theorem ofShell_hexadecimal_tie :
    (∃ double, ofShell defaultLimit
          (String.ofList (Text.ofNat (Text.natInBase 16 "20000000000001".toList))) =
        .ok (number double).plain ∧
        double.IsClosest (Text.natInBase 16 "20000000000001".toList)) ∧
      (ofShell defaultLimit (String.ofList ('0' :: 'x' :: "20000000000001".toList)) =
          ofShell defaultLimit
            (String.ofList (Text.ofNat (Text.natInBase 16 "20000000000001".toList))) ↔
        ¬Token.LosesTie 16 "20000000000001".toList) :=
  ofShell_based_eq_decimal_iff rfl (by decide) (List.all_eq_true.mp rfl) (by decide)

/-- The number `2 ^ 57 + 17` is halfway between two doubles but for its last digit. -/
theorem not_ofShell_based_eq_decimal :
    ¬∀ (letter : Char) (base : Nat) (digits : List Char), Token.base? letter = some base →
      digits ≠ [] → (∀ digit ∈ digits, (Text.digitIn? base digit).isSome = true) →
        ofShell defaultLimit (String.ofList ('0' :: letter :: digits)) =
          ofShell defaultLimit (String.ofList (Text.ofNat (Text.natInBase base digits))) := by
  intro agree
  have nonempty : "200000000000011".toList ≠ [] := by decide
  have inside : ∀ digit ∈ "200000000000011".toList, (Text.digitIn? 16 digit).isSome = true :=
    List.all_eq_true.mp rfl
  have same := agree 'x' 16 "200000000000011".toList rfl nonempty inside
  refine (ofShell_based_eq_iff rfl nonempty inside (by decide)).mp same ?_
  have tie : IsLowTie (Text.natInBase 16 "20000000000001".toList) :=
    ⟨2 ^ 52, 0, by decide, by decide, by decide, by decide⟩
  have small : Text.natInBase 16 "200000000000011".toList < 2 ^ 58 := by decide
  refine ⟨"2000000000000".toList, '1', ['1'], rfl, by decide, tie, by decide,
    Nat.lt_of_lt_of_le small ?_⟩
  gcongr <;> decide

end Value

end DocShell
