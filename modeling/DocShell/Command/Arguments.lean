import DocShell.Command.Link

namespace DocShell

/-! # Arguments of commands -/

structure CallArguments where
  call : Position
  given : List Argument

namespace CallArguments

def evaluateAll : List Expr → Except Failure (List Argument)
  | [] => .ok []
  | expr :: rest => do
      let value ← expr.evaluate
      return ⟨value, expr.position, none⟩ :: (← evaluateAll rest)

def evaluate (who : String) (limit : Nat) (given : List Expr) (call : Position) :
    Except Failure CallArguments :=
  if limit < given.length then
    .error (.misuse (.tooManyArguments who limit given.length) call)
  else do return ⟨call, ← evaluateAll given⟩

/-- The argument at a place. A missing one is absent and stands where the call does. -/
def nth (arguments : CallArguments) (place : Nat) : Argument :=
  (arguments.given[place]?).getD ⟨.absent, arguments.call, none⟩

end CallArguments

namespace Argument

def unexpected (argument : Argument) (who what : String) : Failure :=
  .misuse (.expects who what argument.value.typeName) argument.position

def document (argument : Argument) (who what : String) : Except Failure (Fields Value) :=
  match argument.value with
  | .document fields => .ok fields
  | _ => .error (argument.unexpected who ("a " ++ what ++ " document"))

def optionalDocument (argument : Argument) (who what : String) :
    Except Failure (Option (Fields Value)) :=
  match argument.value with
  | .absent => .ok none
  | .null => .ok none
  | _ => do return some (← argument.document who what)

end Argument

end DocShell
