import DocShell.Number.Magnitude
import DocShell.Text.Digits

namespace DocShell

/-! # Integers of 32 and of 64 bits -/

def FitsInt (number : Int) : Prop := -2 ^ 31 ≤ number ∧ number < 2 ^ 31

instance (number : Int) : Decidable (FitsInt number) := by
  unfold FitsInt
  infer_instance

def FitsLong (number : Int) : Prop := -2 ^ 63 ≤ number ∧ number < 2 ^ 63

instance (number : Int) : Decidable (FitsLong number) := by
  unfold FitsLong
  infer_instance

namespace LongText

/-! ## Reading integers of 64 bits

Whether a text has the form of an integer, and which integer of 64 bits it spells, are
looked at separately. Digits are appended one after the other, away from zero, and the
reading ends where a number on the way is too large. -/

def behindSign {α : Type} (read : (negative : Bool) → List Char → α) : List Char → α
  | '-' :: digits => read true digits
  | '+' :: digits => read false digits
  | digits => read false digits

def isFormed : List Char → Bool :=
  behindSign fun _ digits => !digits.isEmpty && digits.all Char.isDigit

def appendDigit (negative : Bool) (number : Int) (digit : Nat) : Int :=
  if negative then number * 10 - digit else number * 10 + digit

def appendDigits? (negative : Bool) (number : Int) : List Char → Option Int
  | [] => some number
  | digit :: rest =>
      if digit.isDigit then
        let next := appendDigit negative number (digit.toNat - '0'.toNat)
        if FitsLong (number * 10) ∧ FitsLong next then appendDigits? negative next rest else none
      else none

def read? : List Char → Option Int :=
  behindSign fun negative digits =>
    if digits.isEmpty then none else appendDigits? negative 0 digits

/-! ## What is read

A number on the way is never larger than the number at the end, so that the reading only
ends early if that one does not fit. -/

def onSide (negative : Bool) (size : Nat) : Int := if negative then -(size : Int) else size

theorem fitsLong_onSide_of_le {negative : Bool} {smaller larger : Nat} (le : smaller ≤ larger)
    (fits : FitsLong (onSide negative larger)) : FitsLong (onSide negative smaller) := by
  cases negative with
  | false =>
      change FitsLong (larger : Int) at fits
      change FitsLong (smaller : Int)
      simp only [FitsLong] at fits ⊢
      omega
  | true =>
      change FitsLong (-(larger : Int)) at fits
      change FitsLong (-(smaller : Int))
      simp only [FitsLong] at fits ⊢
      omega

theorem appendDigit_onSide (negative : Bool) (number digit : Nat) :
    appendDigit negative (onSide negative number) digit =
      onSide negative (10 * number + digit) := by
  cases negative with
  | false =>
      change (number : Int) * 10 + digit = ((10 * number + digit : Nat) : Int)
      omega
  | true =>
      change -(number : Int) * 10 - digit = -((10 * number + digit : Nat) : Int)
      omega

theorem onSide_mul_ten (negative : Bool) (number : Nat) :
    onSide negative number * 10 = onSide negative (10 * number) := by
  cases negative with
  | false =>
      change (number : Int) * 10 = ((10 * number : Nat) : Int)
      omega
  | true =>
      change -(number : Int) * 10 = -((10 * number : Nat) : Int)
      omega

theorem le_ofDigitChars (digits : List Char) (number : Nat) :
    number ≤ Nat.ofDigitChars 10 digits number := by
  induction digits generalizing number with
  | nil => exact Nat.le_refl number
  | cons digit rest induction =>
      rw [Nat.ofDigitChars_cons]
      exact Nat.le_trans (by omega) (induction _)

/-- Digits lead to the number that they spell behind those before them, if it fits. -/
theorem appendDigits?_eq {negative : Bool} {digits : List Char} {number : Nat}
    (fits : FitsLong (onSide negative number)) :
    appendDigits? negative (onSide negative number) digits =
      if digits.all Char.isDigit ∧ FitsLong (onSide negative (Nat.ofDigitChars 10 digits number))
      then some (onSide negative (Nat.ofDigitChars 10 digits number)) else none := by
  induction digits generalizing number with
  | nil => exact (if_pos ⟨rfl, fits⟩).symm
  | cons digit rest induction =>
      cases isDigit : digit.isDigit with
      | false => simp [appendDigits?, isDigit]
      | true =>
          simp only [appendDigits?, isDigit, if_true, appendDigit_onSide, onSide_mul_ten,
            Nat.ofDigitChars_cons, List.all_cons, Bool.true_and]
          split
          · rename_i within
            exact induction within.2
          · rename_i beyond
            refine (if_neg fun final => beyond ?_).symm
            have next := fitsLong_onSide_of_le (le_ofDigitChars rest _) final.2
            exact ⟨fitsLong_onSide_of_le (Nat.le_add_right _ _) next, next⟩

theorem int?_eq : Text.int? =
    behindSign fun negative digits => (Text.nat? digits).map (onSide negative) := by
  funext text
  unfold Text.int?
  split
  · rfl
  · rfl
  · rename_i noMinus noPlus
    rw [behindSign]
    · rfl
    · exact noMinus
    · exact noPlus

/-- An integer is read if a text has the form of one that fits. -/
theorem read?_eq (text : List Char) : read? text = (Text.int? text).filter (FitsLong ·) := by
  have each (negative : Bool) (digits : List Char) :
      (if digits.isEmpty then none else appendDigits? negative 0 digits) =
        ((Text.nat? digits).map (onSide negative)).filter (FitsLong ·) := by
    have zero : onSide negative 0 = 0 := by cases negative <;> rfl
    have fits : FitsLong (onSide negative 0) := by
      rw [zero]
      decide
    have appended : appendDigits? negative (onSide negative 0) digits = _ := appendDigits?_eq fits
    rw [zero] at appended
    cases digits with
    | nil => rfl
    | cons digit rest =>
        rw [List.isEmpty_cons, if_neg Bool.false_ne_true, appended, Text.nat?, Text.natOfDigits]
        cases all : (digit :: rest).all Char.isDigit <;> simp [Option.filter_some]
  rw [int?_eq]
  unfold read? behindSign
  split <;> exact each _ _

theorem isFormed_eq (text : List Char) : isFormed text = (Text.int? text).isSome := by
  have each (negative : Bool) (digits : List Char) :
      (!digits.isEmpty && digits.all Char.isDigit) =
        ((Text.nat? digits).map (onSide negative)).isSome := by
    rw [Text.nat?]
    cases digits with
    | nil => rfl
    | cons digit rest => cases all : (digit :: rest).all Char.isDigit <;> simp
  rw [int?_eq]
  unfold isFormed behindSign
  split <;> exact each _ _

end LongText

end DocShell
