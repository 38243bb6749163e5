import DocShell.Fields
import DocShell.Number.Double
import DocShell.Scalar.LongText
import DocShell.Scalar.DecimalText
import DocShell.Scalar.ObjectId
import DocShell.Scalar.Pattern
import DocShell.Scalar.Binary

namespace DocShell

/-! # Values of typed documents

A plain number is what a numeral in the text denotes. The typed numbers stand
beside it: integers of 32 bits, explicit doubles, and the two kinds that keep
their digits. `absent` is an omitted value; it may stand alone, in an array slot
or in a field, until the value is made plain. -/

inductive Value
  | absent
  | null
  | bool (value : Bool)
  | number (value : Double)
  | string (text : String)
  | objectId (identifier : ObjectId)
  | int (value : Int32)
  | long (digits : LongText)
  | decimal (digits : DecimalText)
  | double (value : Double)
  /-- Milliseconds since the epoch in universal time. -/
  | date (instant : Int)
  | regex (pattern : Pattern)
  | timestamp (seconds increment : UInt32)
  | binary (data : Binary)
  | array (items : List Value)
  | document (fields : List (String × Value))

namespace Value

def typeName : Value → String
  | .absent => "undefined"
  | .null => "null"
  | .bool _ => "boolean"
  | .number _ => "number"
  | .string _ => "string"
  | .objectId _ => "ObjectId"
  | .int _ => "NumberInt"
  | .long _ => "NumberLong"
  | .decimal _ => "NumberDecimal"
  | .double _ => "NumberDouble"
  | .date _ => "ISODate"
  | .regex _ => "RegExp"
  | .timestamp _ _ => "Timestamp"
  | .binary _ => "BinData"
  | .array _ => "array"
  | .document _ => "document"

def isAbsent : Value → Bool
  | .absent => true
  | _ => false

def string? : Value → Option String
  | .string text => some text
  | _ => none

def bareNumber? : Value → Option Double
  | .number value => some value
  | .double value => some value
  | .int value => some (Double.ofInt value.toInt)
  | _ => none

def items? : Value → Option (List Value)
  | .array items => some items
  | _ => none

def fields? : Value → Option (Fields Value)
  | .document fields => some fields
  | _ => none

end Value

end DocShell
