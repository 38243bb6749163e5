namespace DocShell.Base64

/-! # Base64

The standard alphabet with required padding. Bits that the padding leaves over
must be zero, so every byte string has exactly one spelling. -/

def symbol (value : Nat) : Char :=
  if value < 26 then Char.ofNat ('A'.toNat + value)
  else if value < 52 then Char.ofNat ('a'.toNat + (value - 26))
  else if value < 62 then Char.ofNat ('0'.toNat + (value - 52))
  else if value = 62 then '+'
  else '/'

def value? (symbol : Char) : Option Nat :=
  if 'A' ≤ symbol ∧ symbol ≤ 'Z' then some (symbol.toNat - 'A'.toNat)
  else if 'a' ≤ symbol ∧ symbol ≤ 'z' then some (symbol.toNat - 'a'.toNat + 26)
  else if symbol.isDigit then some (symbol.toNat - '0'.toNat + 52)
  else if symbol = '+' then some 62
  else if symbol = '/' then some 63
  else none

theorem value?_symbol : ∀ value ∈ List.range 64, value? (symbol value) = some value := by
  decide

def encode : List UInt8 → List Char
  | [] => []
  | [a] => [symbol (a.toNat / 4), symbol (a.toNat % 4 * 16), '=', '=']
  | [a, b] =>
      [symbol (a.toNat / 4), symbol (a.toNat % 4 * 16 + b.toNat / 16),
        symbol (b.toNat % 16 * 4), '=']
  | a :: b :: c :: rest =>
      symbol (a.toNat / 4) :: symbol (a.toNat % 4 * 16 + b.toNat / 16) ::
        symbol (b.toNat % 16 * 4 + c.toNat / 64) :: symbol (c.toNat % 64) :: encode rest

def firstByte (w x : Nat) : UInt8 := UInt8.ofNat (w * 4 + x / 16)

def secondByte (x y : Nat) : UInt8 := UInt8.ofNat (x % 16 * 16 + y / 4)

def thirdByte (y z : Nat) : UInt8 := UInt8.ofNat (y % 4 * 64 + z)

def decode? : List Char → Option (List UInt8)
  | [] => some []
  | [w, x, '=', '='] =>
      match value? w, value? x with
      | some w, some x => if x % 16 = 0 then some [firstByte w x] else none
      | _, _ => none
  | [w, x, y, '='] =>
      match value? w, value? x, value? y with
      | some w, some x, some y =>
          if y % 4 = 0 then some [firstByte w x, secondByte x y] else none
      | _, _, _ => none
  | w :: x :: y :: z :: rest =>
      match value? w, value? x, value? y, value? z, decode? rest with
      | some w, some x, some y, some z, some bytes =>
          some (firstByte w x :: secondByte x y :: thirdByte y z :: bytes)
      | _, _, _, _, _ => none
  | _ => none

private theorem value?_symbol_of_lt {value : Nat} (small : value < 64) :
    value? (symbol value) = some value :=
  value?_symbol value (List.mem_range.mpr small)

private theorem symbol_ne_pad_of_lt {value : Nat} (small : value < 64) : symbol value ≠ '=' := by
  intro equal
  have read := value?_symbol_of_lt small
  rw [equal] at read
  exact absurd read (by simp [value?])

private theorem firstByte_pack (a : UInt8) {low : Nat} (small : low < 16) :
    firstByte (a.toNat / 4) (a.toNat % 4 * 16 + low) = a := by
  have bound := a.toNat_lt
  rw [firstByte, show a.toNat / 4 * 4 + (a.toNat % 4 * 16 + low) / 16 = a.toNat by omega,
    UInt8.ofNat_toNat]

private theorem secondByte_pack (b : UInt8) (high : Nat) {low : Nat} (small : low < 4) :
    secondByte (high * 16 + b.toNat / 16) (b.toNat % 16 * 4 + low) = b := by
  have bound := b.toNat_lt
  rw [secondByte, show (high * 16 + b.toNat / 16) % 16 * 16 + (b.toNat % 16 * 4 + low) / 4 =
    b.toNat by omega, UInt8.ofNat_toNat]

private theorem thirdByte_pack (c : UInt8) (high : Nat) :
    thirdByte (high * 4 + c.toNat / 64) (c.toNat % 64) = c := by
  have bound := c.toNat_lt
  rw [thirdByte, show (high * 4 + c.toNat / 64) % 4 * 64 + c.toNat % 64 = c.toNat by omega,
    UInt8.ofNat_toNat]

theorem decode?_encode (bytes : List UInt8) : decode? (encode bytes) = some bytes := by
  fun_induction encode bytes with
  | case1 => rfl
  | case2 a =>
      have aBound := a.toNat_lt
      have first := firstByte_pack a (show 0 < 16 by decide)
      simp only [Nat.add_zero] at first
      simp [decode?, first, value?_symbol_of_lt (show a.toNat / 4 < 64 by omega),
        value?_symbol_of_lt (show a.toNat % 4 * 16 < 64 by omega)]
  | case3 a b =>
      have aBound := a.toNat_lt
      have bBound := b.toNat_lt
      have first := firstByte_pack a (show b.toNat / 16 < 16 by omega)
      have second := secondByte_pack b (a.toNat % 4) (show 0 < 4 by decide)
      simp only [Nat.add_zero] at second
      simp [decode?, first, second, value?_symbol_of_lt (show a.toNat / 4 < 64 by omega),
        value?_symbol_of_lt (show a.toNat % 4 * 16 + b.toNat / 16 < 64 by omega),
        value?_symbol_of_lt (show b.toNat % 16 * 4 < 64 by omega),
        symbol_ne_pad_of_lt (show b.toNat % 16 * 4 < 64 by omega)]
  | case4 a b c rest induction =>
      have aBound := a.toNat_lt
      have bBound := b.toNat_lt
      have cBound := c.toNat_lt
      have first := firstByte_pack a (show b.toNat / 16 < 16 by omega)
      have second := secondByte_pack b (a.toNat % 4) (show c.toNat / 64 < 4 by omega)
      have third := thirdByte_pack c (b.toNat % 16)
      simp [decode?, first, second, third, induction,
        value?_symbol_of_lt (show a.toNat / 4 < 64 by omega),
        value?_symbol_of_lt (show a.toNat % 4 * 16 + b.toNat / 16 < 64 by omega),
        value?_symbol_of_lt (show b.toNat % 16 * 4 + c.toNat / 64 < 64 by omega),
        value?_symbol_of_lt (show c.toNat % 64 < 64 by omega),
        symbol_ne_pad_of_lt (show c.toNat % 64 < 64 by omega)]

example : decode? ['Q', 'Q', '=', '='] = some [65] ∧ decode? ['Q', 'R', '=', '='] = none := by
  decide

end DocShell.Base64
