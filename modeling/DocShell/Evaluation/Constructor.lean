import DocShell.Calendar.Reading
import DocShell.Failure.Basic
import DocShell.Number.Layout
import DocShell.Text.Blank

namespace DocShell

/-! # Constructors of typed values

The only functions that shell text can call. None of them consults a clock or
makes anything up: an argument that is missing is a failure. -/

inductive Constructor
  | objectId
  | date
  | isoDate
  | decimal
  | int
  | long
  | timestamp
  | binary
deriving DecidableEq, Repr

/-- An argument of a call: its value, the position that failures about it report,
and its spelling if it is a signed number. -/
structure Argument where
  value : Value
  position : Position
  spelling : Option String

namespace Constructor

def all : List Constructor :=
  [.objectId, .date, .isoDate, .decimal, .int, .long, .timestamp, .binary]

def name : Constructor → String
  | .objectId => "ObjectId"
  | .date => "Date"
  | .isoDate => "ISODate"
  | .decimal => "NumberDecimal"
  | .int => "NumberInt"
  | .long => "NumberLong"
  | .timestamp => "Timestamp"
  | .binary => "BinData"

def ofName? (name : String) : Option Constructor := all.find? (·.name = name)

private def expects (who what : String) (argument : Argument) : Failure :=
  .misuse (.expects who what argument.value.typeName) argument.position

def buildObjectId (argument : Argument) : Except Failure Value :=
  match argument.value with
  | .string text =>
      match ObjectId.ofHex? text with
      | some identifier => .ok (.objectId identifier)
      | none => .error (.misuse (.badIdentifier text) argument.position)
  | _ => .error (expects "ObjectId" "a 24-character hex string" argument)

def instant? : Value → Option Int
  | .string text => Calendar.read? text.toList
  | .number number => number.truncatedWithin? Calendar.instantLimit
  | .long digits => if digits.value.natAbs ≤ Calendar.instantLimit then some digits.value else none
  | .date instant => some instant
  | _ => none

def buildDate (who : String) (argument : Argument) : Except Failure Value :=
  if argument.value.isAbsent then .error (.misuse (.noArgument who) argument.position)
  else
    match instant? argument.value with
    | some instant => .ok (.date instant)
    | none => .error (.misuse (.badInstant who) argument.position)

/-- The digits of a decimal. A number gives those that were written, as long as
they form a decimal, and else the shortest ones of its double. -/
def decimalDigits (argument : Argument) : Except Failure String :=
  match argument.value with
  | .string text => .ok text
  | .number number =>
      match argument.spelling.filter fun spelling => DecimalText.fault? spelling = none with
      | some spelling => .ok spelling
      | none => .ok (String.ofList number.shellText)
  | _ => .error (expects "NumberDecimal" "a string" argument)

def buildDecimal (argument : Argument) : Except Failure Value := do
  let text ← decimalDigits argument
  match DecimalText.parse text with
  | .ok digits => .ok (.decimal digits)
  | .error .outOfRange => .error (.precision (.decimalText text))
  | .error .malformed => .error (.misuse (.badDecimal text) argument.position)

def buildInt (argument : Argument) : Except Failure Value :=
  let number? := match argument.value with
    | .string text => Text.int? (Text.trim text.toList)
    | .number number => number.toInt?
    | _ => none
  match number?.filter (FitsInt ·) with
  | some number => .ok (.int (Int32.ofInt number))
  | none => .error (.misuse .badInt argument.position)

def exceedsExact (spelling : Option String) : Bool :=
  match spelling.bind fun spelling => Text.int? spelling.toList with
  | some number => Double.exactLimit < number.natAbs
  | none => false

def longOfNumber (argument : Argument) (number : Double) : Except Failure Value :=
  let spelling := argument.spelling.getD (String.ofList number.shellText)
  if number.isFinite ∧ number.toInt? = none then
    .error (.misuse (.fractionalLong number) argument.position)
  else if exceedsExact argument.spelling then .error (.precision (.longNumber spelling))
  else
    match number.toExactInt? with
    | some exact =>
        if fits : FitsLong exact then .ok (.long (LongText.ofInt exact fits))
        else .error (.precision (.longNumber spelling))
    | none => .error (.precision (.longNumber spelling))

def buildLong (argument : Argument) : Except Failure Value :=
  match argument.value with
  | .string text =>
      match LongText.parse text with
      | .ok digits => .ok (.long digits)
      | .error .outOfRange => .error (.precision (.longText text))
      | .error .malformed => .error (.misuse (.badLong text) argument.position)
  | .number number => longOfNumber argument number
  | .long digits => .ok (.long digits)
  | _ => .error (expects "NumberLong" "a string" argument)

def natBelow? (bound : Nat) : Value → Option Nat
  | .number number =>
      match number.toInt? with
      | some (.ofNat whole) => if whole < bound then some whole else none
      | _ => none
  | _ => none

def timestampPart (part : String) (argument : Argument) : Except Failure UInt32 :=
  match natBelow? (2 ^ 32) argument.value with
  | some number => .ok (UInt32.ofNat number)
  | none => .error (.misuse (.badWord part) argument.position)

def buildTimestamp (first second : Argument) : Except Failure Value := do
  let seconds ← timestampPart "Timestamp seconds" first
  let increment ← timestampPart "Timestamp increment" second
  return .timestamp seconds increment

def buildBinary (first second : Argument) : Except Failure Value :=
  match natBelow? 256 first.value with
  | none => .error (.misuse .badSubtype first.position)
  | some subtype =>
      match second.value with
      | .string payload =>
          match Binary.ofBase64? (UInt8.ofNat subtype) payload with
          | some data => .ok (.binary data)
          | none => .error (.misuse .badBase64 second.position)
      | _ => .error (expects "BinData" "a base64 string" second)

/-- The value that a call at a position makes of its arguments. Arguments beyond
those in use are ignored; a missing one is absent, and failures about it report
the call. -/
def build (constructor : Constructor) (call : Position) (arguments : List Argument) :
    Except Failure Value :=
  let argument (place : Nat) : Argument := (arguments[place]?).getD ⟨.absent, call, none⟩
  match constructor with
  | .objectId => buildObjectId (argument 0)
  | .date => buildDate "Date" (argument 0)
  | .isoDate => buildDate "ISODate" (argument 0)
  | .decimal => buildDecimal (argument 0)
  | .int => buildInt (argument 0)
  | .long => buildLong (argument 0)
  | .timestamp => buildTimestamp (argument 0) (argument 1)
  | .binary => buildBinary (argument 0) (argument 1)

end Constructor

end DocShell
