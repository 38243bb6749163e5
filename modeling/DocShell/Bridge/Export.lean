import DocShell.Json.Basic
import DocShell.Number.Layout
import DocShell.Value.Basic

namespace DocShell.Value

/-! # Values as JSON

Typed values become objects with one member whose name begins with a dollar sign.
Plain numbers stay numbers: integers where a double is one exactly, floats
otherwise, and a typed double where JSON has no number. Absent fields are left
out; everything else that is absent becomes null. -/

def typedDouble (value : Double) : Json :=
  .wrapped "$numberDouble" (.string (String.ofList value.shellText))

def jsonOfNumber (value : Double) : Json :=
  match value.toExactInt? with
  | some whole => .integer whole
  | none => if value.isFinite then .float value else typedDouble value

def subtypeText (subtype : UInt8) : String := String.ofList (Text.hexText 2 subtype.toNat)

mutual

def toJson : Value → Json
  | .absent => .null
  | .null => .null
  | .bool value => .bool value
  | .number value => jsonOfNumber value
  | .string text => .string text
  | .objectId identifier => .wrapped "$oid" (.string identifier.hex)
  | .int value => .wrapped "$numberInt" (.string (String.ofList (Text.ofInt value.toInt)))
  | .long digits => .wrapped "$numberLong" (.string digits.text)
  | .decimal digits => .wrapped "$numberDecimal" (.string digits.text)
  | .double value => typedDouble value
  | .date instant =>
      .wrapped "$date" (.wrapped "$numberLong" (.string (String.ofList (Text.ofInt instant))))
  | .regex pattern =>
      .wrapped "$regularExpression"
        (.object [("pattern", .string pattern.source), ("options", .string pattern.options)])
  | .timestamp seconds increment =>
      .wrapped "$timestamp"
        (.object [("t", .integer seconds.toNat), ("i", .integer increment.toNat)])
  | .binary data =>
      .wrapped "$binary"
        (.object [("base64", .string data.base64),
          ("subType", .string (subtypeText data.subtype))])
  | .array items => .array (itemsToJson items)
  | .document fields => .object (fieldsToJson fields)

def itemsToJson : List Value → List Json
  | [] => []
  | item :: rest => toJson item :: itemsToJson rest

def fieldsToJson : List (String × Value) → List (String × Json)
  | [] => []
  | (name, value) :: rest =>
      if value.isAbsent then fieldsToJson rest else (name, toJson value) :: fieldsToJson rest

end

end DocShell.Value
