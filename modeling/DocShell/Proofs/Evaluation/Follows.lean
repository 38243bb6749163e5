import DocShell.Proofs.Evaluation.Yields
import DocShell.Proofs.Expr.Moved

namespace DocShell

/-! # Evaluation follows

What an expression means does not depend on where it stands. Only failures name a place,
and it is that of one of its nodes. -/

def Argument.moved (move : Position → Position) (argument : Argument) : Argument :=
  ⟨argument.value, move argument.position, argument.spelling⟩

variable {change : Change}

/-! ## Constructors -/

namespace Constructor

theorem follows_buildObjectId (argument : Argument) :
    Follows change id (buildObjectId argument) (buildObjectId (argument.moved change.move)) := by
  rcases argument with ⟨value, position, spelling⟩
  simp only [buildObjectId, Argument.moved]
  split
  · split
    · exact follows_ok _
    · exact follows_error _
  · exact follows_error _

theorem follows_buildDate (who : String) (argument : Argument) :
    Follows change id (buildDate who argument) (buildDate who (argument.moved change.move)) := by
  rcases argument with ⟨value, position, spelling⟩
  simp only [buildDate, Argument.moved]
  refine follows_ite (follows_error _) ?_
  split
  · exact follows_ok _
  · exact follows_error _

theorem follows_decimalDigits (argument : Argument) :
    Follows change id (decimalDigits argument) (decimalDigits (argument.moved change.move)) := by
  rcases argument with ⟨value, position, spelling⟩
  simp only [decimalDigits, Argument.moved]
  split
  · exact follows_ok _
  · split <;> exact follows_ok _
  · exact follows_error _

theorem follows_buildDecimal (argument : Argument) :
    Follows change id (buildDecimal argument) (buildDecimal (argument.moved change.move)) := by
  refine (follows_decimalDigits argument).bind fun text => ?_
  dsimp only [id]
  split
  · exact follows_ok _
  · exact follows_error _
  · exact follows_error _

theorem follows_buildInt (argument : Argument) :
    Follows change id (buildInt argument) (buildInt (argument.moved change.move)) := by
  rcases argument with ⟨value, position, spelling⟩
  simp only [buildInt, Argument.moved]
  generalize Option.filter _ _ = number
  cases number with
  | none => exact follows_error _
  | some number => exact follows_ok _

theorem follows_longOfNumber (argument : Argument) (number : Double) :
    Follows change id (longOfNumber argument number)
      (longOfNumber (argument.moved change.move) number) := by
  rcases argument with ⟨value, position, spelling⟩
  simp only [longOfNumber, Argument.moved]
  refine follows_ite (follows_error _) (follows_ite (follows_error _) ?_)
  split
  · split
    · exact follows_ok _
    · exact follows_error _
  · exact follows_error _

theorem follows_buildLong (argument : Argument) :
    Follows change id (buildLong argument) (buildLong (argument.moved change.move)) := by
  rcases argument with ⟨value, position, spelling⟩
  cases value with
  | string text =>
      simp only [buildLong, Argument.moved]
      split
      · exact follows_ok _
      · exact follows_error _
      · exact follows_error _
  | number number => exact follows_longOfNumber _ number
  | long digits => exact follows_ok _
  | _ => exact follows_error _

theorem follows_timestampPart (part : String) (argument : Argument) :
    Follows change id (timestampPart part argument)
      (timestampPart part (argument.moved change.move)) := by
  rcases argument with ⟨value, position, spelling⟩
  simp only [timestampPart, Argument.moved]
  split
  · exact follows_ok _
  · exact follows_error _

theorem follows_buildTimestamp (first second : Argument) :
    Follows change id (buildTimestamp first second)
      (buildTimestamp (first.moved change.move) (second.moved change.move)) :=
  (follows_timestampPart _ first).bind fun _ =>
    (follows_timestampPart _ second).bind_pure fun _ => rfl

theorem follows_buildBinary (first second : Argument) :
    Follows change id (buildBinary first second)
      (buildBinary (first.moved change.move) (second.moved change.move)) := by
  rcases first with ⟨subtype, firstPosition, firstSpelling⟩
  rcases second with ⟨payload, secondPosition, secondSpelling⟩
  simp only [buildBinary, Argument.moved]
  split
  · exact follows_error _
  split
  · split
    · exact follows_ok _
    · exact follows_error _
  · exact follows_error _

/-- A call whose arguments are moved reports them, and itself, at their new places. -/
theorem follows_build (builder : Constructor) (call : Position) (arguments : List Argument) :
    Follows change id (builder.build call arguments)
      (builder.build (change.move call) (arguments.map (Argument.moved change.move))) := by
  have places (place : Nat) :
      ((arguments.map (Argument.moved change.move))[place]?).getD ⟨.absent, change.move call, none⟩ =
        ((arguments[place]?).getD ⟨.absent, call, none⟩).moved change.move := by
    rw [List.getElem?_map]
    cases arguments[place]? <;> rfl
  cases builder <;> simp only [build, places]
  · exact follows_buildObjectId _
  · exact follows_buildDate _ _
  · exact follows_buildDate _ _
  · exact follows_buildDecimal _
  · exact follows_buildInt _
  · exact follows_buildLong _
  · exact follows_buildTimestamp _ _
  · exact follows_buildBinary _ _

end Constructor

/-! ## Expressions -/

namespace Expr

theorem follows_literalValue (position : Position) (content : Literal) :
    Follows change id (literalValue position content)
      (literalValue (change.move position) content) := by
  cases content with
  | regex source options =>
      simp only [literalValue]
      split
      · exact follows_ok _
      · exact follows_error _
  | _ => exact follows_ok _

theorem follows_signedValue (position : Position) (sign : Sign) (value : Value) :
    Follows change id (signedValue position sign value)
      (signedValue (change.move position) sign value) := by
  cases value with
  | number number => cases sign <;> exact follows_ok _
  | _ => exact follows_error _

theorem follows_itemValues {items : List (Option Expr)}
    (each : ∀ item ∈ items.filterMap id, Follows change id item.meaning (change.expr item).meaning) :
    Follows change id (itemValues items)
      (itemValues (items.map (Option.map change.expr))) := by
  induction items with
  | nil => exact follows_ok _
  | cons item rest induction =>
      cases item with
      | none => exact (induction each).bind_pure fun _ => rfl
      | some item =>
          rcases List.forall_mem_cons.mp each with ⟨first, later⟩
          exact first.bind fun _ => (induction later).bind_pure fun _ => rfl

theorem follows_fieldValues {fields : List (String × Expr)}
    (each : ∀ value ∈ fields.map (·.2), Follows change id value.meaning (change.expr value).meaning) :
    Follows change id (fieldValues fields)
      (fieldValues (fields.map (Prod.map id change.expr))) := by
  induction fields with
  | nil => exact follows_ok _
  | cons field rest induction =>
      rcases List.forall_mem_cons.mp each with ⟨first, later⟩
      exact first.bind fun _ => (induction later).bind_pure fun _ => rfl

theorem follows_argumentValues {given : List Expr}
    (each : ∀ argument ∈ given,
      Follows change id argument.meaning (change.expr argument).meaning) :
    Follows change (List.map (Argument.moved change.move)) (argumentValues given)
      (argumentValues (given.map change.expr)) := by
  induction given with
  | nil => exact follows_ok _
  | cons argument rest induction =>
      rcases List.forall_mem_cons.mp each with ⟨first, later⟩
      refine first.bind fun meaning => (induction later).bind_pure fun others => ?_
      rw [Change.expr, position_moved, numberSpelling?_moved]
      rfl

theorem follows_called {callee : Expr} {given : List Expr} (position : Position)
    (start : Follows change id callee.meaning (change.expr callee).meaning)
    (each : ∀ argument ∈ given,
      Follows change id argument.meaning (change.expr argument).meaning) :
    Follows change id (called position callee given)
      (called (change.move position) (change.expr callee) (given.map change.expr)) := by
  refine start.bind fun meaning => ?_
  cases meaning with
  | data value =>
      simp only [id, Change.expr, position_moved]
      exact follows_error _
  | constructor builder =>
      exact (follows_argumentValues each).bind fun arguments =>
        (builder.follows_build position arguments).bind_pure fun _ => rfl

/-- The meaning of an expression follows a change of its places. -/
theorem follows_meaning (expr : Expr) : Follows change id expr.meaning (change.expr expr).meaning := by
  induction expr using Expr.induction with
  | node expr each =>
      cases expr with
      | literal position content =>
          exact (follows_literalValue position content).bind_pure fun _ => rfl
      | name position label =>
          simp only [Change.expr, moved, meaning]
          split
          · exact follows_ok _
          · exact follows_error _
      | array position items =>
          rw [Change.expr_array, meaning, meaning]
          exact (follows_itemValues each).bind_pure fun _ => rfl
      | object position fields =>
          rw [Change.expr_object, meaning, meaning]
          exact (follows_fieldValues each).bind_pure fun _ => rfl
      | signed position sign operand =>
          have inner := each operand List.mem_cons_self
          exact inner.bind fun meaning =>
            (follows_signedValue position sign meaning.value).bind_pure fun _ => rfl
      | member position owner label =>
          exact (each owner List.mem_cons_self).bind fun _ => follows_error _
      | index position owner key =>
          have inner := each key (List.mem_cons_of_mem _ List.mem_cons_self)
          exact (each owner List.mem_cons_self).bind fun _ => inner.bind fun _ => follows_error _
      | call position callee given =>
          rw [Change.expr_call]
          rcases List.forall_mem_cons.mp each with ⟨start, later⟩
          exact follows_called position start later
      | new position callee given =>
          rw [Change.expr_new]
          rcases List.forall_mem_cons.mp each with ⟨start, later⟩
          exact follows_called position start later

theorem follows_evaluate (expr : Expr) :
    Follows change id expr.evaluate (change.expr expr).evaluate :=
  (follows_meaning expr).bind_pure fun _ => rfl

end Expr

end DocShell
