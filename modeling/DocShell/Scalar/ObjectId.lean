import DocShell.Text.Hex

namespace DocShell

/-! # Object identifiers: twelve bytes, written as 24 hexadecimal digits -/

structure ObjectId where
  bytes : List UInt8
  length_eq : bytes.length = 12
deriving DecidableEq

namespace ObjectId

def ofBytes? (bytes : List UInt8) : Option ObjectId :=
  if length_eq : bytes.length = 12 then some ⟨bytes, length_eq⟩ else none

def ofHex? (text : String) : Option ObjectId :=
  (Text.bytesOfHex? text.toList).bind ofBytes?

def hex (identifier : ObjectId) : String := String.ofList (Text.hexOfBytes identifier.bytes)

theorem ofHex?_hex (identifier : ObjectId) : ofHex? identifier.hex = some identifier := by
  simp [ofHex?, hex, Text.bytesOfHex?_hexOfBytes, ofBytes?, identifier.length_eq]

end ObjectId

end DocShell
