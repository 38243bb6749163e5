import DocShell.Proofs.Expr.Parts
import DocShell.Proofs.Failure.Follows

namespace DocShell

/-! # Moved tokens and expressions

The same tokens in other places, and what is read of them. -/

def Token.moved (move : Position → Position) (token : Token) : Token :=
  ⟨token.lexeme, move token.position⟩

namespace Expr

mutual

def moved (move : Position → Position) : Expr → Expr
  | .literal position content => .literal (move position) content
  | .name position label => .name (move position) label
  | .array position items => .array (move position) (movedItems move items)
  | .object position fields => .object (move position) (movedFields move fields)
  | .signed position sign operand => .signed (move position) sign (moved move operand)
  | .member position owner label => .member (move position) (moved move owner) label
  | .index position owner key => .index (move position) (moved move owner) (moved move key)
  | .call position callee given =>
      .call (move position) (moved move callee) (movedArguments move given)
  | .new position callee given =>
      .new (move position) (moved move callee) (movedArguments move given)

def movedItems (move : Position → Position) : List (Option Expr) → List (Option Expr)
  | [] => []
  | none :: rest => none :: movedItems move rest
  | some item :: rest => some (moved move item) :: movedItems move rest

def movedFields (move : Position → Position) : List (String × Expr) → List (String × Expr)
  | [] => []
  | (key, value) :: rest => (key, moved move value) :: movedFields move rest

def movedArguments (move : Position → Position) : List Expr → List Expr
  | [] => []
  | argument :: rest => moved move argument :: movedArguments move rest

end

variable (move : Position → Position)

theorem movedItems_eq_map (items : List (Option Expr)) :
    movedItems move items = items.map (Option.map (moved move)) := by
  induction items with
  | nil => rfl
  | cons item rest induction =>
      cases item with
      | none => rw [movedItems, induction, List.map_cons, Option.map_none]
      | some item => rw [movedItems, induction, List.map_cons, Option.map_some]

theorem movedFields_eq_map (fields : List (String × Expr)) :
    movedFields move fields = fields.map (Prod.map id (moved move)) := by
  induction fields with
  | nil => rfl
  | cons field rest induction => rw [movedFields, induction, List.map_cons, Prod.map, id]

theorem movedArguments_eq_map (given : List Expr) :
    movedArguments move given = given.map (moved move) := by
  induction given with
  | nil => rfl
  | cons argument rest induction => rw [movedArguments, induction, List.map_cons]

theorem position_moved (expr : Expr) : (expr.moved move).position = move expr.position := by
  cases expr <;> rfl

theorem numberSpelling?_moved (expr : Expr) :
    (expr.moved move).numberSpelling? = expr.numberSpelling? := by
  induction expr using Expr.induction with
  | node expr each =>
      cases expr with
      | literal position content => cases content <;> rfl
      | signed position sign operand =>
          have inner := each operand (List.mem_singleton.mpr rfl)
          cases sign with
          | plus => rw [moved, numberSpelling?, numberSpelling?, inner]
          | minus => rw [moved, numberSpelling?, numberSpelling?, inner]
      | _ => rfl

end Expr

namespace Change

variable (change : Change)

def tokens (tokens : List Token) : List Token := tokens.map (Token.moved change.move)

def found {ι κ : Type} (transform : ι → κ) (found : ι × List Token) : κ × List Token :=
  (transform found.1, change.tokens found.2)

def expr : Expr → Expr := Expr.moved change.move

theorem expr_array (position : Position) (items : List (Option Expr)) :
    change.expr (.array position items) =
      .array (change.move position) (items.map (Option.map change.expr)) :=
  congrArg (Expr.array _) (Expr.movedItems_eq_map change.move items)

theorem expr_object (position : Position) (fields : List (String × Expr)) :
    change.expr (.object position fields) =
      .object (change.move position) (fields.map (Prod.map id change.expr)) :=
  congrArg (Expr.object _) (Expr.movedFields_eq_map change.move fields)

theorem expr_call (position : Position) (callee : Expr) (given : List Expr) :
    change.expr (.call position callee given) =
      .call (change.move position) (change.expr callee) (given.map change.expr) :=
  congrArg (Expr.call _ _) (Expr.movedArguments_eq_map change.move given)

theorem expr_new (position : Position) (callee : Expr) (given : List Expr) :
    change.expr (.new position callee given) =
      .new (change.move position) (change.expr callee) (given.map change.expr) :=
  congrArg (Expr.new _ _) (Expr.movedArguments_eq_map change.move given)

end Change

end DocShell
