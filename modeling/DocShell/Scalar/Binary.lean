import DocShell.Text.Base64

namespace DocShell

/-! # Binary data: a subtype of one byte, and bytes kept in their base64 spelling -/

structure Binary where
  subtype : UInt8
  base64 : String
  decodes : (Base64.decode? base64.toList).isSome
deriving DecidableEq

namespace Binary

def ofBase64? (subtype : UInt8) (base64 : String) : Option Binary :=
  if decodes : (Base64.decode? base64.toList).isSome then some ⟨subtype, base64, decodes⟩
  else none

def ofBytes (subtype : UInt8) (bytes : List UInt8) : Binary where
  subtype := subtype
  base64 := String.ofList (Base64.encode bytes)
  decodes := by simp [Base64.decode?_encode]

/-- The bytes that the spelling stands for; no bytes, were it none. -/
def bytes (binary : Binary) : List UInt8 := (Base64.decode? binary.base64.toList).getD []

end Binary

end DocShell
