import DocShell.Evaluation.Constructor
import DocShell.Expr.Reading
import DocShell.Value.Plain

namespace DocShell

/-! # The meaning of expressions

A name stands for one of the constructors or for one of three values, and every
other name is undefined. A constructor may be called; used as data it is absent.
All parts of an expression are given a meaning, from left to right, and the first
failure is the failure of the whole. -/

inductive Meaning
  | data (value : Value)
  | constructor (constructor : Constructor)

namespace Meaning

def value : Meaning → Value
  | .data value => value
  | .constructor _ => .absent

def describe : Meaning → String
  | .data value => value.typeName
  | .constructor builder => builder.name

def ofName? (name : String) : Option Meaning :=
  match Constructor.ofName? name with
  | some builder => some (.constructor builder)
  | none =>
      if name = "undefined" then some (.data .absent)
      else if name = "NaN" then some (.data (.number .nan))
      else if name = "Infinity" then some (.data (.number (.infinity false)))
      else none

end Meaning

namespace Expr

def literalValue (position : Position) : Literal → Except Failure Value
  | .null => .ok .null
  | .bool value => .ok (.bool value)
  | .number written => .ok (.number written.value)
  | .string text => .ok (.string text)
  | .regex source options =>
      match Pattern.new? source options with
      | some pattern => .ok (.regex pattern)
      | none => .error (.unreadable (.regexOptions options) position)

def signedValue (position : Position) (sign : Sign) : Value → Except Failure Value
  | .number number =>
      match sign with
      | .plus => .ok (.number number)
      | .minus => .ok (.number number.neg)
  | value => .error (.misuse (.operand value.typeName) position)

mutual

def meaning : Expr → Except Failure Meaning
  | .literal position content => do return .data (← literalValue position content)
  | .name position label =>
      match Meaning.ofName? label with
      | some meaning => .ok meaning
      | none => .error (.undefined label position)
  | .array _ items => do return .data (.array (← itemValues items))
  | .object _ fields => do return .data (.document (Fields.ofPairs (← fieldValues fields)))
  | .signed position sign operand => do
      return .data (← signedValue position sign (← meaning operand).value)
  | .member position owner _ => do
      let owner ← meaning owner
      .error (.misuse (.property owner.describe) position)
  | .index position owner key => do
      let owner ← meaning owner
      let _ ← meaning key
      .error (.misuse (.property owner.describe) position)
  | .call position callee given => do
      match ← meaning callee with
      | .data value => .error (.misuse (.notFunction value.typeName) callee.position)
      | .constructor builder =>
          return .data (← builder.build position (← argumentValues given))
  | .new position callee given => do
      match ← meaning callee with
      | .data value => .error (.misuse (.notFunction value.typeName) callee.position)
      | .constructor builder =>
          return .data (← builder.build position (← argumentValues given))

def itemValues : List (Option Expr) → Except Failure (List Value)
  | [] => .ok []
  | none :: rest => do return .absent :: (← itemValues rest)
  | some item :: rest => do
      let meaning ← meaning item
      return meaning.value :: (← itemValues rest)

def fieldValues : List (String × Expr) → Except Failure (List (String × Value))
  | [] => .ok []
  | (key, expr) :: rest => do
      let meaning ← meaning expr
      return (key, meaning.value) :: (← fieldValues rest)

def argumentValues : List Expr → Except Failure (List Argument)
  | [] => .ok []
  | expr :: rest => do
      let meaning ← meaning expr
      return ⟨meaning.value, expr.position, expr.numberSpelling?⟩ :: (← argumentValues rest)

end

/-- A constructor makes the same of its arguments, whether or not `new` stands before it. -/
theorem meaning_new (position : Position) (callee : Expr) (given : List Expr) :
    meaning (.new position callee given) = meaning (.call position callee given) := by
  rw [meaning, meaning]

def evaluate (expr : Expr) : Except Failure Value := do
  let meaning ← expr.meaning
  return meaning.value.plain

end Expr

/-! ## Values of shell text -/

namespace Value

def defaultLimit : Nat := 256

/-- The value that a shell text denotes; a text without an expression denotes none. -/
def ofShell (limit : Nat) (text : String) : Except Failure Value := do
  match ← Expr.parse limit text with
  | some expr => expr.evaluate
  | none => .ok .absent

end Value

end DocShell
