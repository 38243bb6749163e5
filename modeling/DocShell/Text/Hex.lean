import DocShell.Text.Digits

namespace DocShell.Text

/-! # Bytes as hexadecimal text

Two digits a byte, the high half first. Either case of letters is read, lower
case is written. -/

def hexOfBytes : List UInt8 → List Char
  | [] => []
  | byte :: rest =>
      hexDigit (byte.toNat / 16) :: hexDigit (byte.toNat % 16) :: hexOfBytes rest

def bytesOfHex? : List Char → Option (List UInt8)
  | [] => some []
  | [_] => none
  | high :: low :: rest =>
      match hexValue? high, hexValue? low, bytesOfHex? rest with
      | some high, some low, some bytes => some (UInt8.ofNat (16 * high + low) :: bytes)
      | _, _, _ => none

private theorem hexValue?_hexDigit :
    ∀ value ∈ List.range 16, hexValue? (hexDigit value) = some value := by decide

theorem bytesOfHex?_hexOfBytes (bytes : List UInt8) :
    bytesOfHex? (hexOfBytes bytes) = some bytes := by
  induction bytes with
  | nil => rfl
  | cons byte rest induction =>
      have bound := byte.toNat_lt
      have high := hexValue?_hexDigit (byte.toNat / 16) (List.mem_range.mpr (by omega))
      have low := hexValue?_hexDigit (byte.toNat % 16) (List.mem_range.mpr (by omega))
      simp only [hexOfBytes, bytesOfHex?, high, low, induction,
        show 16 * (byte.toNat / 16) + byte.toNat % 16 = byte.toNat by omega,
        UInt8.ofNat_toNat]

end DocShell.Text
