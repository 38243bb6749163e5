import DocShell.Bridge.Export
import DocShell.Bridge.Import
import DocShell.Failure.Message
import DocShell.Json.Reading
import DocShell.Json.Writing
import DocShell.Value.Written

namespace DocShell

/-! # Values and documents as JSON text -/

def Value.ofJsonText (text : String) : Except Failure Value :=
  match Json.parse? text with
  | some json => Value.ofJson json
  | none => .error .notJson

def Value.jsonText (value : Value) : String := value.toJson.compactText

def Value.shellOfJsonText (indent : Nat) (text : String) : Except Failure String := do
  return (← Value.ofJsonText text).shellText indent

/-! ## JSON where a kind of value is wanted

The value at the front of a text is converted, and its kind is checked, before the
text behind it is looked at. What is wrong with the value is therefore reported
before anything that should not follow it. -/

inductive DocumentFault
  | failure (failure : Failure)
  | notDocument (kind : String)

namespace DocumentFault

def message : DocumentFault → String
  | .failure cause => cause.message
  | .notDocument kind => s!"expected a document, got {kind}"

end DocumentFault

def Value.asDocument (value : Value) : Except DocumentFault (Fields Value) :=
  match value with
  | .document fields => .ok fields
  | _ => .error (.notDocument value.typeName)

def Value.ofLeadingJson (text : String) : Except Failure (Value × List Char) := do
  match Json.front? text with
  | some (json, rest) => return (← Value.ofJson json, rest)
  | none => .error .notJson

def Json.atEnd {ι : Type} (item : ι) (rest : List Char) : Except Failure ι :=
  if Json.skipBlanks rest = [] then .ok item else .error .notJson

def Value.anyOfJsonText (text : String) : Except Failure Value := do
  let (value, rest) ← Value.ofLeadingJson text
  Json.atEnd value rest

def Value.documentOfJsonText (text : String) : Except DocumentFault (Fields Value) := do
  let (value, rest) ← (Value.ofLeadingJson text).mapError .failure
  let fields ← value.asDocument
  (Json.atEnd fields rest).mapError .failure

end DocShell
