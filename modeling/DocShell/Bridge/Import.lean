import DocShell.Calendar.Reading
import DocShell.Failure.Basic
import DocShell.Number.Decimal

namespace DocShell.Value

/-! # JSON as values

The typed forms are read back, and with them the older and the looser spellings
that are in use: dates as text or as numbers, binary data beside its type, and
identifiers as the bytes of a buffer. An object of any other shape is a document.
Integers that a double would round are refused. -/

abbrev Import (ι : Type) := Except Failure ι

def malformed {ι : Type} (what : String) (json : Json) : Import ι :=
  .error (.wrapper (.malformed what json))

def orMalformed {ι : Type} (what : String) (json : Json) : Option ι → Import ι
  | some item => .ok item
  | none => malformed what json

def ofInteger (number : Int) : Import Value :=
  if number.natAbs ≤ Double.exactLimit then .ok (.number (Double.ofInt number))
  else .error (.precision (.jsonInteger number))

/-! ## Parts of typed values -/

def stringMember (what name : String) (json : Json) : Import String :=
  orMalformed what json ((json.member? name).bind Json.string?)

def wordMember (what name : String) (json : Json) : Import UInt32 :=
  orMalformed what json
    (((json.member? name).bind (Json.natBelow? (2 ^ 32))).map UInt32.ofNat)

def longOfText (what text : String) : Import LongText :=
  match LongText.parse text with
  | .ok digits => .ok digits
  | .error .outOfRange => .error (.precision (.jsonLong what text))
  | .error .malformed => .error (.wrapper (.notInteger what text))

def intOfText? (text : String) : Option Int32 :=
  ((Text.int? text.toList).filter (FitsInt ·)).map Int32.ofInt

/-- A byte in hexadecimal, which may carry a plus sign. -/
def subtypeOfText? (text : String) : Option UInt8 :=
  let digits := match text.toList with
    | '+' :: digits => digits
    | digits => digits
  if digits = [] then none
  else ((Text.natOfHex? digits).filter (· < 256)).map UInt8.ofNat

def decimalOfText (json : Json) (text : String) : Import DecimalText :=
  match DecimalText.parse text with
  | .ok digits => .ok digits
  | .error .outOfRange => .error (.precision (.jsonDecimal text))
  | .error .malformed => malformed "$numberDecimal" json

def spelledInstant : Json → Import Int
  | json@(.object _) => do
      let text ← stringMember "$date" "$numberLong" json
      let digits ← longOfText "$date" text
      return digits.value
  | json@(.string text) => orMalformed "$date" json (Calendar.read? text.toList)
  | json@(.integer whole) => if FitsLong whole then .ok whole else malformed "$date" json
  | json => malformed "$date" json

def instantOf (json : Json) : Import Int := do
  let instant ← spelledInstant json
  if instant.natAbs ≤ Calendar.instantLimit then .ok instant
  else .error (.wrapper (.instantRange instant))

def binaryOf (json : Json) : Import Value := do
  let payload ← stringMember "$binary" "base64" json
  let subtype ← stringMember "$binary" "subType" json
  let subtype ← orMalformed "$binary subType" json (subtypeOfText? subtype)
  orMalformed "$binary base64" json ((Binary.ofBase64? subtype payload).map .binary)

def patternOf (json : Json) : Import Value := do
  let source ← stringMember "$regularExpression" "pattern" json
  let options ← stringMember "$regularExpression" "options" json
  match Pattern.new? source options with
  | some pattern => .ok (.regex pattern)
  | none => .error (.wrapper (.badRegex source options))

/-- The identifier that an object with the members `0` to `11` spells byte by byte. -/
def bufferIdentifier? : Json → Option ObjectId
  | .object members =>
      if members.length = 12 then do
        let bytes ← (List.range 12).mapM fun place => do
          let byte ← Fields.get? (String.ofList (Text.ofNat place)) members
          byte.natBelow? 256
        ObjectId.ofBytes? (bytes.map UInt8.ofNat)
      else none
  | _ => none

/-! ## Wrappers -/

def ofSingle? (name : String) (inner : Json) : Import (Option Value) :=
  let text : Import String := orMalformed name inner inner.string?
  if name = "$oid" then do
    let identifier ← orMalformed name inner (inner.string?.bind ObjectId.ofHex?)
    return some (.objectId identifier)
  else if name = "$date" then do return some (.date (← instantOf inner))
  else if name = "$numberInt" then do
    let number ← orMalformed name inner (inner.string?.bind intOfText?)
    return some (.int number)
  else if name = "$numberLong" then do return some (.long (← longOfText name (← text)))
  else if name = "$numberDouble" then do
    let number ← orMalformed name inner (Double.ofText? (← text).toList)
    return some (.double number)
  else if name = "$numberDecimal" then do
    return some (.decimal (← decimalOfText inner (← text)))
  else if name = "$regularExpression" then do return some (← patternOf inner)
  else if name = "$timestamp" then do
    let seconds ← wordMember name "t" inner
    let increment ← wordMember name "i" inner
    return some (.timestamp seconds increment)
  else if name = "$binary" then do return some (← binaryOf inner)
  else .ok none

/-- The value of an object that wraps a typed one, or nothing for a document. -/
def ofWrapper? (members : List (String × Json)) : Import (Option Value) :=
  match members with
  | [(name, inner)] =>
      match (if name = "id" then bufferIdentifier? inner else none) with
      | some identifier => .ok (some (.objectId identifier))
      | none => ofSingle? name inner
  | [_, _] =>
      match Fields.get? "$binary" members, Fields.get? "$type" members with
      | some payload, some subtype => do
          return some (← binaryOf (.object [("base64", payload), ("subType", subtype)]))
      | _, _ => .ok none
  | _ => .ok none

mutual

def ofJson : Json → Import Value
  | .null => .ok .null
  | .bool value => .ok (.bool value)
  | .integer whole => ofInteger whole
  | .float inexact => .ok (.number inexact)
  | .string text => .ok (.string text)
  | .array items => do return .array (← ofItems items)
  | .object members => do
      match ← ofWrapper? members with
      | some value => .ok value
      | none => return .document (Fields.ofPairs (← ofMembers members))

def ofItems : List Json → Import (List Value)
  | [] => .ok []
  | item :: rest => do
      let value ← ofJson item
      return value :: (← ofItems rest)

def ofMembers : List (String × Json) → Import (List (String × Value))
  | [] => .ok []
  | (name, json) :: rest => do
      let value ← ofJson json
      return (name, value) :: (← ofMembers rest)

end

end DocShell.Value
