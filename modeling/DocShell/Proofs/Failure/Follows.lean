import DocShell.Failure.Message
import DocShell.Proofs.Failure.Bind

namespace DocShell

/-! # Runs side by side

A run is compared with one on the same tokens in other places and with some more levels of
room. The two end alike, failures at the places that correspond to each other, unless the
first one lacks room that the second one has. -/

namespace Failure

def moved (move : Position → Position) : Failure → Failure
  | .unreadable fault position => .unreadable fault (move position)
  | .undefined label position => .undefined label (move position)
  | .misuse cause position => .misuse cause (move position)
  | failure => failure

theorem moved_id (failure : Failure) : failure.moved id = failure := by
  cases failure <;> rfl

theorem position?_moved (move : Position → Position) (failure : Failure) :
    (failure.moved move).position? = failure.position?.map move := by
  cases failure <;> rfl

end Failure

/-- What a second run may change: where things stand, and how many levels may nest. -/
structure Change where
  move : Position → Position
  limit : Nat
  more : Nat

def carried {α β : Type} (move : Position → Position) (transform : α → β) :
    Except Failure α → Except Failure β
  | .ok item => .ok (transform item)
  | .error failure => .error (failure.moved move)

def LacksRoom {α : Type} (limit : Nat) (result : Except Failure α) : Prop :=
  ∃ position, result = .error (.unreadable (.tooDeep limit) position)

/-- A second run ends as the first one does, if the first one has enough room. -/
def Follows {α β : Type} (change : Change) (transform : α → β) (first : Except Failure α)
    (second : Except Failure β) : Prop :=
  second = carried change.move transform first ∨ 0 < change.more ∧ LacksRoom change.limit first

section

variable {α β γ δ : Type} {change : Change} {transform : α → β} {first : Except Failure α}
  {second : Except Failure β}

theorem follows_ok (item : α) : Follows change transform (.ok item) (.ok (transform item)) := .inl rfl

theorem follows_error (failure : Failure) :
    Follows change transform (.error failure) (.error (failure.moved change.move)) := .inl rfl

/-- Two runs that take the same branch. -/
theorem follows_ite {condition : Prop} [Decidable condition] {otherFirst : Except Failure α}
    {otherSecond : Except Failure β} (holds : Follows change transform first second)
    (fails : Follows change transform otherFirst otherSecond) :
    Follows change transform (if condition then first else otherFirst)
      (if condition then second else otherSecond) := by
  split
  · exact holds
  · exact fails

/-- A step after another one, which may rely on how the other one ended. -/
theorem Follows.bind_of_eq_ok {other : γ → δ} {next : α → Except Failure γ}
    {onward : β → Except Failure δ} (start : Follows change transform first second)
    (later : ∀ item, first = .ok item →
      Follows change other (next item) (onward (transform item))) :
    Follows change other (first >>= next) (second >>= onward) := by
  rcases start with rfl | ⟨less, position, rfl⟩
  · cases first with
    | error failure => exact follows_error failure
    | ok item => exact later item rfl
  · exact .inr ⟨less, position, rfl⟩

theorem Follows.bind {other : γ → δ} {next : α → Except Failure γ} {onward : β → Except Failure δ}
    (start : Follows change transform first second)
    (later : ∀ item, Follows change other (next item) (onward (transform item))) :
    Follows change other (first >>= next) (second >>= onward) :=
  start.bind_of_eq_ok fun item _ => later item

theorem Follows.map {other : γ → δ} {next : α → γ} {onward : β → δ}
    (start : Follows change transform first second)
    (later : ∀ item, onward (transform item) = other (next item)) :
    Follows change other (first.map next) (second.map onward) := by
  rcases start with rfl | ⟨less, position, rfl⟩
  · cases first with
    | error failure => exact follows_error failure
    | ok item => exact .inl (congrArg Except.ok (later item))
  · exact .inr ⟨less, position, rfl⟩

/-- A step that succeeds, with whatever is made of its result. -/
theorem Follows.bind_pure {other : γ → δ} {next : α → γ} {onward : β → δ}
    (start : Follows change transform first second)
    (later : ∀ item, onward (transform item) = other (next item)) :
    Follows change other (first >>= fun item => pure (next item))
      (second >>= fun item => pure (onward item)) :=
  start.bind fun item => .inl (congrArg Except.ok (later item))

/-- With the same room the second run always ends as the first one does. -/
theorem Follows.eq_carried (follows : Follows change transform first second)
    (same : change.more = 0) : second = carried change.move transform first :=
  follows.resolve_right fun lacking => by
    rw [same] at lacking
    exact Nat.lt_irrefl 0 lacking.1

end

end DocShell
