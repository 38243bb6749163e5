import DocShell.Text.Position
import Mathlib.Data.List.Induction

namespace DocShell.Position

/-! # Positions counted from the start

Moving on character by character gives the same place as counting line feeds and the
characters behind the last of them. Every character leads to a later place. -/

/-- The place of what follows a text, counted from the start of the text. -/
def counted (text : List Char) : Position :=
  ⟨1 + text.count '\n', 1 + (text.reverse.takeWhile (· ≠ '\n')).length⟩

theorem counted_append_singleton (text : List Char) (character : Char) :
    counted (text ++ [character]) = (counted text).after character := by
  by_cases breaks : character = '\n'
  · simp [counted, after, breaks, Nat.add_assoc]
  · simp [counted, after, breaks, Nat.add_assoc]

theorem afterAll_start (text : List Char) : start.afterAll text = counted text := by
  induction text using List.reverseRecOn with
  | nil => rfl
  | append_singleton text character induction =>
      rw [afterAll_append, induction, counted_append_singleton, afterAll_cons, afterAll_nil]

theorem counted_append (front back : List Char) :
    counted (front ++ back) = (counted front).afterAll back := by
  rw [← afterAll_start, ← afterAll_start, afterAll_append]

/-! ## Earlier and later -/

def Precedes (left right : Position) : Prop :=
  left.line < right.line ∨ left.line = right.line ∧ left.column < right.column

theorem Precedes.trans {first second third : Position} (left : Precedes first second)
    (right : Precedes second third) : Precedes first third := by
  unfold Precedes at left right ⊢
  omega

theorem precedes_after (position : Position) (character : Char) :
    Precedes position (position.after character) := by
  rw [after]
  split
  · exact .inl (Nat.lt_succ_self _)
  · exact .inr ⟨rfl, Nat.lt_succ_self _⟩

theorem precedes_afterAll (position : Position) (first : Char) (rest : List Char) :
    Precedes position (position.afterAll (first :: rest)) := by
  induction rest generalizing position first with
  | nil => exact precedes_after position first
  | cons second rest induction => exact (precedes_after position first).trans (induction _ second)

end DocShell.Position
