import DocShell.Token.Basic

namespace DocShell

/-! # Expressions

What shell text says before it is given a meaning. Every node keeps the position
that failures about it report: a suffix its own mark, everything else its first
token. -/

inductive Sign
  | plus
  | minus
deriving DecidableEq, Repr

inductive Literal
  | null
  | bool (value : Bool)
  | number (literal : NumberLiteral)
  | string (text : String)
  | regex (source options : String)
deriving DecidableEq

inductive Expr
  | literal (position : Position) (literal : Literal)
  | name (position : Position) (name : String)
  /-- An item that is missing is a hole between two commas. -/
  | array (position : Position) (items : List (Option Expr))
  | object (position : Position) (fields : List (String × Expr))
  | signed (position : Position) (sign : Sign) (operand : Expr)
  | member (position : Position) (owner : Expr) (name : String)
  | index (position : Position) (owner key : Expr)
  | call (position : Position) (callee : Expr) (arguments : List Expr)
  | new (position : Position) (callee : Expr) (arguments : List Expr)

namespace Expr

def position : Expr → Position
  | .literal position _ => position
  | .name position _ => position
  | .array position _ => position
  | .object position _ => position
  | .signed position _ _ => position
  | .member position _ _ => position
  | .index position _ _ => position
  | .call position _ _ => position
  | .new position _ _ => position

def negatedSpelling (spelling : String) : String :=
  match spelling.toList with
  | '-' :: rest => String.ofList rest
  | _ => "-" ++ spelling

def numberSpelling? : Expr → Option String
  | .literal _ (.number written) => some written.spelling
  | .signed _ .minus operand => operand.numberSpelling?.map negatedSpelling
  | .signed _ .plus operand => operand.numberSpelling?
  | _ => none

end Expr

end DocShell
