namespace DocShell.Text

/-! # Digits and whole numbers in text

All of this is ASCII: numerals of other scripts belong to names, never to
numbers. -/

def natOfDigits (digits : List Char) : Nat := Nat.ofDigitChars 10 digits 0

def ofNat (number : Nat) : List Char := Nat.toDigits 10 number

def ofInt (number : Int) : List Char :=
  if number < 0 then '-' :: ofNat number.natAbs else ofNat number.natAbs

def padded (width number : Nat) : List Char :=
  List.replicate (width - (ofNat number).length) '0' ++ ofNat number

@[simp] theorem natOfDigits_ofNat (number : Nat) : natOfDigits (ofNat number) = number :=
  Nat.ofDigitChars_ten_toDigits

theorem ofNat_ne_nil (number : Nat) : ofNat number ≠ [] := Nat.toDigits_ne_nil

theorem isDigit_of_mem_ofNat {number : Nat} {digit : Char} (member : digit ∈ ofNat number) :
    digit.isDigit = true :=
  Nat.isDigit_of_mem_toDigits (by decide) (by decide) member

/-! ## Reading whole numbers -/

def nat? (text : List Char) : Option Nat :=
  if text ≠ [] ∧ text.all Char.isDigit then some (natOfDigits text) else none

def int? : List Char → Option Int
  | '-' :: digits => (nat? digits).map fun (number : Nat) => -(number : Int)
  | '+' :: digits => (nat? digits).map Int.ofNat
  | digits => (nat? digits).map Int.ofNat

/-- A whole number that may carry a plus sign, but no minus. -/
def unsigned? : List Char → Option Nat
  | '+' :: digits => nat? digits
  | digits => nat? digits

@[simp] theorem nat?_ofNat (number : Nat) : nat? (ofNat number) = some number := by
  simp only [nat?, natOfDigits_ofNat, List.all_eq_true]
  rw [if_pos ⟨ofNat_ne_nil number, fun _ => isDigit_of_mem_ofNat⟩]

theorem int?_ofNat (number : Nat) : int? (ofNat number) = some (number : Int) := by
  have digits : ∀ digit ∈ ofNat number, digit.isDigit = true :=
    fun _ => isDigit_of_mem_ofNat
  have read := nat?_ofNat number
  unfold int?
  split
  · rename_i rest equal
    exact absurd (digits '-' (by simp [equal])) (by decide)
  · rename_i rest equal
    exact absurd (digits '+' (by simp [equal])) (by decide)
  · simp [read]

theorem int?_ofInt (number : Int) : int? (ofInt number) = some number := by
  unfold ofInt
  split
  · rename_i negative
    have value : -(number.natAbs : Int) = number := by omega
    simp only [int?, nat?_ofNat, Option.map_some, value]
  · rename_i nonnegative
    rw [int?_ofNat, Option.some.injEq]
    omega

/-! ## Other bases -/

def hexValue? (digit : Char) : Option Nat :=
  if digit.isDigit then some (digit.toNat - '0'.toNat)
  else if 'a' ≤ digit ∧ digit ≤ 'f' then some (digit.toNat - 'a'.toNat + 10)
  else if 'A' ≤ digit ∧ digit ≤ 'F' then some (digit.toNat - 'A'.toNat + 10)
  else none

def digitIn? (base : Nat) (digit : Char) : Option Nat :=
  (hexValue? digit).filter (· < base)

def hexDigit (value : Nat) : Char := Nat.digitChar value

def hexText : (width : Nat) → Nat → List Char
  | 0, _ => []
  | width + 1, value => hexText width (value / 16) ++ [hexDigit (value % 16)]

theorem length_hexText (width value : Nat) : (hexText width value).length = width := by
  induction width generalizing value with
  | zero => rfl
  | succ width induction => simp [hexText, induction]

def natOfHex? (digits : List Char) : Option Nat :=
  digits.foldlM (fun number digit => (hexValue? digit).map (16 * number + ·)) 0

def hexPrefix? (width : Nat) (text : List Char) : Option Nat :=
  if width ≤ text.length then natOfHex? (text.take width) else none

example : hexText 4 0x1f = ['0', '0', '1', 'f'] ∧ natOfHex? ['1', 'F'] = some 31 := by decide

end DocShell.Text
