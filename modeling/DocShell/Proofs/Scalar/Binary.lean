import DocShell.Proofs.Text.Base64
import DocShell.Scalar.Binary

namespace DocShell.Binary

/-! # Binary data by its content

The spelling of the bytes is kept, and it is compared when binary data is compared. As
every byte string has one spelling, this comes to comparing the bytes. -/

/-- The kept spelling can always be read. -/
theorem decode?_base64 (binary : Binary) :
    Base64.decode? binary.base64.toList = some binary.bytes := by
  rcases Option.isSome_iff_exists.mp binary.decodes with ⟨content, read⟩
  rw [Binary.bytes, read, Option.getD_some]

@[simp] theorem bytes_ofBytes (subtype : UInt8) (bytes : List UInt8) :
    (ofBytes subtype bytes).bytes = bytes := by
  rw [Binary.bytes, ofBytes, String.toList_ofList, Base64.decode?_encode, Option.getD_some]

theorem ext_base64 {left right : Binary} (subtype : left.subtype = right.subtype)
    (base64 : left.base64 = right.base64) : left = right := by
  cases left
  cases right
  cases subtype
  cases base64
  rfl

/-- The bytes spell the data again. -/
@[simp] theorem ofBytes_bytes (binary : Binary) : ofBytes binary.subtype binary.bytes = binary := by
  have spelled := Base64.decode?_eq_some_iff.mp binary.decode?_base64
  refine ext_base64 rfl ?_
  change String.ofList (Base64.encode binary.bytes) = binary.base64
  rw [← spelled, String.ofList_toList]

theorem ext_bytes {left right : Binary} (subtype : left.subtype = right.subtype)
    (bytes : left.bytes = right.bytes) : left = right := by
  rw [← left.ofBytes_bytes, ← right.ofBytes_bytes, subtype, bytes]

theorem of_ofBase64? {subtype : UInt8} {base64 : String} {binary : Binary}
    (accepted : ofBase64? subtype base64 = some binary) :
    binary.subtype = subtype ∧ binary.base64 = base64 := by
  unfold ofBase64? at accepted
  split at accepted
  · cases accepted
    exact ⟨rfl, rfl⟩
  · cases accepted

/-- Bytes come back out of their spelling, an accepted spelling out of its bytes, and two
pieces of binary data are the same if and only if their subtypes and their bytes are. -/
theorem same_iff_content :
    (∀ subtype bytes, (ofBytes subtype bytes).subtype = subtype ∧
      (ofBytes subtype bytes).bytes = bytes) ∧
    (∀ subtype base64 binary, ofBase64? subtype base64 = some binary →
      binary.subtype = subtype ∧ binary.base64 = base64 ∧
        Base64.decode? base64.toList = some binary.bytes ∧
        ofBytes subtype binary.bytes = binary) ∧
    ∀ left right : Binary,
      left = right ↔ left.subtype = right.subtype ∧ left.bytes = right.bytes := by
  refine ⟨fun subtype bytes => ⟨rfl, bytes_ofBytes subtype bytes⟩, ?_, fun left right => ⟨?_, ?_⟩⟩
  · intro subtype base64 binary accepted
    rcases of_ofBase64? accepted with ⟨rfl, rfl⟩
    exact ⟨rfl, rfl, binary.decode?_base64, binary.ofBytes_bytes⟩
  · rintro rfl
    exact ⟨rfl, rfl⟩
  · rintro ⟨subtype, bytes⟩
    exact ext_bytes subtype bytes

/-- A payload of one byte, with both marks of padding. -/
theorem same_iff_content_padded :
    ofBase64? 4 "/w==" = some (ofBytes 4 [255]) ∧
      ofBytes 4 (ofBytes 4 [255]).bytes = ofBytes 4 [255] :=
  have accepted : ofBase64? 4 "/w==" = some (ofBytes 4 [255]) := by decide
  ⟨accepted, (same_iff_content.2.1 4 "/w==" _ accepted).2.2.2⟩

end DocShell.Binary
