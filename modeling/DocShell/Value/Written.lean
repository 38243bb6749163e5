import DocShell.Calendar.Date
import DocShell.Number.Layout
import DocShell.Text.Enclosed
import DocShell.Text.Quoted
import DocShell.Value.Basic

namespace DocShell.Value

/-! # Writing values as shell text

Plain numbers are written bare, all other scalars of documents as a call of their
constructor or as a literal. Fields that are absent are left out; an absent item
keeps its slot. With an indent, every item and every field has a line of its
own. -/

/-- Whether a key needs no quotes: an ASCII letter, an underscore or a dollar sign,
followed by those and digits. -/
def isBareKey (key : String) : Bool :=
  match key.toList with
  | [] => false
  | first :: rest =>
      (first.isAlpha || first = '_' || first = '$') &&
        rest.all fun character => character.isAlphanum || character = '_' || character = '$'

def writtenKey (key : String) : List Char :=
  if isBareKey key then key.toList else Text.quoted key

/-- What a pattern looks like from one character on, given whether that character
is escaped and whether it stands in a class. Line breaks, and slashes that would
close the literal, are escaped. -/
def escapedSource (escaped inClass : Bool) : List Char → List Char
  | [] => []
  | character :: rest =>
      let behind :=
        escapedSource (!escaped && character = '\\')
          (if escaped then inClass
            else if character = '[' then true
            else if character = ']' then false
            else inClass) rest
      if character = '\n' then '\\' :: 'n' :: behind
      else if character = '\r' then '\\' :: 'r' :: behind
      else if character = '/' ∧ !escaped ∧ !inClass then '\\' :: '/' :: behind
      else character :: behind

/-- The source of a pattern as it stands between slashes. Two slashes alone would
begin a comment, so the empty pattern is an empty group. -/
def writtenSource (source : String) : List Char :=
  if source.toList = [] then ['(', '?', ':', ')'] else escapedSource false false source.toList

def writtenCall (name : String) (argument : List Char) : List Char :=
  name.toList ++ '(' :: argument ++ [')']

/-- Text between double quotes, in which nothing needs an escape. -/
def inQuotes (text : List Char) : List Char := '"' :: text ++ ['"']

def writtenDate (instant : Int) : List Char :=
  match Calendar.write? instant with
  | some text => writtenCall "ISODate" (inQuotes text)
  | none => writtenCall "Date" (Text.ofInt instant)

/-- How the parts of a container at `depth` are set. Zero spaces of indent mean
one line, on which only documents are padded. -/
def spacing (indent depth : Nat) (padding : List Char) : Text.Spacing :=
  if indent = 0 then .oneLine padding [',', ' '] else .lines indent depth

mutual

def written (indent depth : Nat) : Value → List Char
  | .absent => []
  | .null => "null".toList
  | .bool value => if value then "true".toList else "false".toList
  | .number value => value.shellText
  | .string text => Text.quoted text
  | .objectId identifier => writtenCall "ObjectId" (inQuotes identifier.hex.toList)
  | .int value => Text.ofInt value.toInt
  | .long digits => writtenCall "NumberLong" (inQuotes digits.text.toList)
  | .decimal digits => writtenCall "NumberDecimal" (inQuotes digits.text.toList)
  | .double value => value.shellText
  | .date instant => writtenDate instant
  | .regex pattern => '/' :: writtenSource pattern.source ++ '/' :: pattern.options.toList
  | .timestamp seconds increment =>
      writtenCall "Timestamp"
        (Text.ofNat seconds.toNat ++ ',' :: ' ' :: Text.ofNat increment.toNat)
  | .binary data =>
      writtenCall "BinData" (Text.ofNat data.subtype.toNat ++ ',' :: ' ' :: Text.quoted data.base64)
  | .array items =>
      Text.enclosed '[' ']' (spacing indent depth []) (writtenItems indent (depth + 1) items)
  | .document fields =>
      Text.enclosed '{' '}' (spacing indent depth [' ']) (writtenFields indent (depth + 1) fields)

def writtenItems (indent depth : Nat) : List Value → List (List Char)
  | [] => []
  | item :: rest =>
      (if item.isAbsent then "undefined".toList else written indent depth item) ::
        writtenItems indent depth rest

def writtenFields (indent depth : Nat) : List (String × Value) → List (List Char)
  | [] => []
  | (name, value) :: rest =>
      if value.isAbsent then writtenFields indent depth rest
      else (writtenKey name ++ ':' :: ' ' :: written indent depth value) ::
        writtenFields indent depth rest

end

def shellText (value : Value) (indent : Nat) : String := String.ofList (value.written indent 0)

end DocShell.Value
