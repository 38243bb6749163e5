import DocShell.Proofs.Text.Runs
import DocShell.Text.Base64

namespace DocShell.Base64

/-! # One spelling for every byte string

What is read is what is written for the bytes that it stands for: the alphabet has one
character for each value, and no bit of a group is left unread. A byte string therefore
has no spelling but its own. -/

/-! ## The alphabet -/

theorem ascii_of_value? {character : Char} {value : Nat} (read : value? character = some value) :
    character.toNat < 128 := by
  have below {high : Char} (small : high.toNat < 128) (inside : character ≤ high) :
      character.toNat < 128 :=
    Nat.lt_of_le_of_lt (UInt32.le_iff_toNat_le.mp inside) small
  unfold value? at read
  split at read
  · rename_i upper
    exact below (by decide) upper.2
  split at read
  · rename_i lower
    exact below (by decide) lower.2
  split at read
  · rename_i digit
    exact Text.toNat_lt_of_isDigit digit
  split at read
  · rename_i plus
    exact plus ▸ by decide
  split at read
  · rename_i slash
    exact slash ▸ by decide
  · cases read

/-- A character that stands for a value is the one that is written for it. -/
theorem symbol_of_value? {character : Char} {value : Nat} (read : value? character = some value) :
    value < 64 ∧ symbol value = character := by
  have each := Text.forall_ascii
    (fun character => (value? character).all (fun value => value < 64 ∧ symbol value = character))
    (by decide +kernel) (ascii_of_value? read)
  rw [read] at each
  exact of_decide_eq_true each

/-! ## Groups -/

variable {w x y z : Nat}

theorem toNat_firstByte (first : w < 64) (second : x < 64) :
    (firstByte w x).toNat = w * 4 + x / 16 :=
  UInt8.toNat_ofNat_of_lt' (show w * 4 + x / 16 < 256 by omega)

theorem toNat_secondByte (third : y < 64) : (secondByte x y).toNat = x % 16 * 16 + y / 4 :=
  UInt8.toNat_ofNat_of_lt' (show x % 16 * 16 + y / 4 < 256 by omega)

theorem toNat_thirdByte (fourth : z < 64) : (thirdByte y z).toNat = y % 4 * 64 + z :=
  UInt8.toNat_ofNat_of_lt' (show y % 4 * 64 + z < 256 by omega)

/-- Three bytes are written as the four values that they are made of. -/
theorem encode_group (first : w < 64) (second : x < 64) (third : y < 64) (fourth : z < 64)
    (bytes : List UInt8) :
    encode (firstByte w x :: secondByte x y :: thirdByte y z :: bytes) =
      symbol w :: symbol x :: symbol y :: symbol z :: encode bytes := by
  rw [encode, toNat_firstByte first second, toNat_secondByte third, toNat_thirdByte fourth,
    show (w * 4 + x / 16) / 4 = w by omega,
    show (w * 4 + x / 16) % 4 * 16 + (x % 16 * 16 + y / 4) / 16 = x by omega,
    show (x % 16 * 16 + y / 4) % 16 * 4 + (y % 4 * 64 + z) / 64 = y by omega,
    show (y % 4 * 64 + z) % 64 = z by omega]

/-- One byte is written as the two values that it is made of, if no bits are left over. -/
theorem encode_one (first : w < 64) (second : x < 64) (even : x % 16 = 0) :
    encode [firstByte w x] = [symbol w, symbol x, '=', '='] := by
  rw [encode, toNat_firstByte first second, show (w * 4 + x / 16) / 4 = w by omega,
    show (w * 4 + x / 16) % 4 * 16 = x by omega]

/-- Two bytes are written as the three values that they are made of, if no bits are left over. -/
theorem encode_two (first : w < 64) (second : x < 64) (third : y < 64) (even : y % 4 = 0) :
    encode [firstByte w x, secondByte x y] = [symbol w, symbol x, symbol y, '='] := by
  rw [encode, toNat_firstByte first second, toNat_secondByte third,
    show (w * 4 + x / 16) / 4 = w by omega,
    show (w * 4 + x / 16) % 4 * 16 + (x % 16 * 16 + y / 4) / 16 = x by omega,
    show (x % 16 * 16 + y / 4) % 16 * 4 = y by omega]

/-- The bytes of a text are written as that text. -/
theorem encode_of_decode? {text : List Char} {bytes : List UInt8}
    (read : decode? text = some bytes) : encode bytes = text := by
  -- Group by group. Only the last group may be short, and then its unused bits are zero.
  fun_induction decode? text generalizing bytes with
  | case1 =>
      cases read
      rfl
  | case2 =>
      rename_i second first even
      cases read
      rcases symbol_of_value? first with ⟨firstSmall, rfl⟩
      rcases symbol_of_value? second with ⟨secondSmall, rfl⟩
      exact encode_one firstSmall secondSmall even
  | case5 =>
      rename_i third second first even
      cases read
      rcases symbol_of_value? first with ⟨firstSmall, rfl⟩
      rcases symbol_of_value? second with ⟨secondSmall, rfl⟩
      rcases symbol_of_value? third with ⟨thirdSmall, rfl⟩
      exact encode_two firstSmall secondSmall thirdSmall even
  | case8 =>
      rename_i behind fourth third second first induction
      cases read
      rcases symbol_of_value? first with ⟨firstSmall, rfl⟩
      rcases symbol_of_value? second with ⟨secondSmall, rfl⟩
      rcases symbol_of_value? third with ⟨thirdSmall, rfl⟩
      rcases symbol_of_value? fourth with ⟨fourthSmall, rfl⟩
      rw [encode_group firstSmall secondSmall thirdSmall fourthSmall, induction behind]
  | _ => cases read

/-- A text is read as some bytes if it is what they are written as, and only then. -/
theorem decode?_eq_some_iff {text : List Char} {bytes : List UInt8} :
    decode? text = some bytes ↔ text = encode bytes :=
  ⟨fun read => (encode_of_decode? read).symm, fun equal => equal ▸ decode?_encode bytes⟩

end DocShell.Base64
