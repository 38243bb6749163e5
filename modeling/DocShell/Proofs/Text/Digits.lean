import DocShell.Number.Magnitude
import DocShell.Text.Digits

namespace DocShell.Text

/-! # Runs of digits

How the number of a run depends on its parts. Zeros in front change nothing, zeros
behind multiply by powers of ten, and a number is never written with a zero in
front. -/

theorem natOfDigits_append (front back : List Char) :
    natOfDigits (front ++ back) =
      natOfDigits front * 10 ^ back.length + natOfDigits back := by
  unfold natOfDigits
  rw [Nat.ofDigitChars_append, Nat.ofDigitChars_eq_ofDigitChars_zero, Nat.mul_comm]

theorem natOfDigits_append_zeros (front : List Char) (count : Nat) :
    natOfDigits (front ++ List.replicate count '0') = natOfDigits front * 10 ^ count := by
  rw [natOfDigits_append, List.length_replicate]
  simp [natOfDigits]

theorem natOfDigits_zeros_append (count : Nat) (back : List Char) :
    natOfDigits (List.replicate count '0' ++ back) = natOfDigits back := by
  rw [natOfDigits_append]
  simp [natOfDigits]

theorem natOfDigits_lt {digits : List Char} (all : ∀ digit ∈ digits, digit.isDigit = true) :
    natOfDigits digits < 10 ^ digits.length := by
  induction digits with
  | nil => decide
  | cons digit rest induction =>
      have later := induction fun other member => all other (List.mem_cons_of_mem _ member)
      have first := all digit List.mem_cons_self
      simp only [Char.isDigit, Bool.and_eq_true, decide_eq_true_eq] at first
      have upper : digit.toNat ≤ 57 := first.2
      have value : natOfDigits [digit] ≤ 9 := by
        change 10 * 0 + (digit.toNat - 48) ≤ 9
        omega
      rw [← List.singleton_append, natOfDigits_append, List.length_append, List.length_singleton,
        Nat.pow_add, Nat.pow_one]
      have scaled := Nat.mul_le_mul_right (10 ^ rest.length) value
      omega

/-- Digits behind one that is not zero reach the power of ten of their count. -/
theorem pow_le_natOfDigits {first : Char} (isDigit : first.isDigit = true) (nonzero : first ≠ '0')
    (rest : List Char) : 10 ^ rest.length ≤ natOfDigits (first :: rest) := by
  simp only [Char.isDigit, Bool.and_eq_true, decide_eq_true_eq] at isDigit
  have lower : 48 ≤ first.toNat := isDigit.1
  have other : first.toNat ≠ 48 := fun equal => nonzero (Char.toNat_inj.mp equal)
  have value : 1 ≤ natOfDigits [first] := by
    change 1 ≤ 10 * 0 + (first.toNat - 48)
    omega
  rw [← List.singleton_append, natOfDigits_append]
  have scaled := Nat.mul_le_mul_right (10 ^ rest.length) value
  omega

/-- The digits that are left without the zeros in front tell the size of a number. -/
theorem length_dropWhile_zero_le_iff {digits : List Char}
    (all : ∀ digit ∈ digits, digit.isDigit = true) (width : Nat) :
    (digits.dropWhile (· = '0')).length ≤ width ↔ natOfDigits digits < 10 ^ width := by
  induction digits with
  | nil => exact iff_of_true (Nat.zero_le width) (Nat.pow_pos (by decide))
  | cons first rest induction =>
      have later := induction fun other member => all other (List.mem_cons_of_mem _ member)
      by_cases zero : first = '0'
      · subst zero
        have same : natOfDigits ('0' :: rest) = natOfDigits rest := natOfDigits_zeros_append 1 rest
        rwa [same]
      · have lower := pow_le_natOfDigits (all first List.mem_cons_self) zero rest
        have upper := natOfDigits_lt all
        rw [List.dropWhile_cons_of_neg (by simpa using zero)]
        constructor
        · exact fun fits => Nat.lt_of_lt_of_le upper (Nat.pow_le_pow_right (by decide) fits)
        · exact fun small =>
            (Nat.pow_lt_pow_iff_right (by decide : 1 < 10)).mp (Nat.lt_of_le_of_lt lower small)

theorem ofNat_mul_ten {number : Nat} (positive : 0 < number) :
    ofNat (number * 10) = ofNat number ++ ['0'] := by
  have appended := Nat.toDigits_append_toDigits (b := 10) (d := 0) (by decide) positive (by decide)
  rw [Nat.toDigits_zero, Nat.add_zero, Nat.mul_comm] at appended
  exact appended.symm

theorem length_ofNat_mul_pow {number : Nat} (positive : 0 < number) (power : Nat) :
    (ofNat (number * 10 ^ power)).length = (ofNat number).length + power := by
  induction power with
  | zero => simp
  | succ power induction =>
      have larger : 0 < number * 10 ^ power := Nat.mul_pos positive (Nat.pow_pos (by decide))
      rw [Nat.pow_succ, ← Nat.mul_assoc, ofNat_mul_ten larger, List.length_append, induction]
      rfl

theorem length_ofNat_le_iff {number width : Nat} (positive : 0 < width) :
    (ofNat number).length ≤ width ↔ number < 10 ^ width :=
  Nat.length_toDigits_le_iff (by decide) positive

theorem pow_length_le_ofNat {number : Nat} (positive : 0 < number) :
    10 ^ ((ofNat number).length - 1) ≤ number := by
  rcases Nat.eq_zero_or_pos ((ofNat number).length - 1) with zero | longer
  · rw [zero]
    exact positive
  · refine Nat.le_of_not_lt fun small => ?_
    have short := (length_ofNat_le_iff longer).mpr small
    omega

theorem lt_pow_length_ofNat (number : Nat) : number < 10 ^ (ofNat number).length :=
  (length_ofNat_le_iff (List.length_pos_iff.mpr (ofNat_ne_nil number))).mp (Nat.le_refl _)

theorem head?_ofNat_ne_zero {number : Nat} (positive : 0 < number) :
    (ofNat number).head? ≠ some '0' := by
  induction number using Nat.strongRecOn with
  | ind number induction =>
      by_cases small : number < 10
      · rw [ofNat, Nat.toDigits_of_lt_base small]
        simp only [List.head?_cons, ne_eq, Option.some.injEq, Nat.digitChar_eq_zero]
        omega
      · have quotient : 0 < number / 10 := by omega
        have earlier := induction (number / 10) (by omega) quotient
        rw [ofNat, Nat.toDigits_of_base_le (by decide) (by omega), List.head?_append,
          List.head?_eq_some_head Nat.toDigits_ne_nil, Option.some_or]
        rwa [ofNat, List.head?_eq_some_head Nat.toDigits_ne_nil] at earlier

/-! ## Digits alone -/

theorem exists_digits_of_nat? {text : List Char} {number : Nat} (read : nat? text = some number) :
    text ≠ [] ∧ (∀ digit ∈ text, digit.isDigit = true) ∧ natOfDigits text = number := by
  unfold nat? at read
  split at read
  · rename_i digits
    exact ⟨digits.1, List.all_eq_true.mp digits.2, Option.some.inj read⟩
  · cases read

theorem nat?_of_digits {digits : List Char} (nonempty : digits ≠ [])
    (all : ∀ digit ∈ digits, digit.isDigit = true) : nat? digits = some (natOfDigits digits) := by
  rw [nat?, if_pos ⟨nonempty, List.all_eq_true.mpr all⟩]

@[simp] theorem unsigned?_ofNat (number : Nat) : unsigned? (ofNat number) = some number := by
  unfold unsigned?
  split
  · rename_i rest equal
    have digit : '+'.isDigit = true := isDigit_of_mem_ofNat (equal ▸ List.mem_cons_self)
    cases digit
  · exact nat?_ofNat number

/-! ## Digits of a fixed width -/

theorem length_padded {width number : Nat} (positive : 0 < width) (fits : number < 10 ^ width) :
    (padded width number).length = width := by
  have short := (length_ofNat_le_iff positive).mpr fits
  rw [padded, List.length_append, List.length_replicate, Nat.sub_add_cancel short]

theorem natOfDigits_padded (width number : Nat) : natOfDigits (padded width number) = number := by
  rw [padded, natOfDigits_zeros_append, natOfDigits_ofNat]

theorem isDigit_of_mem_padded {width number : Nat} {digit : Char}
    (member : digit ∈ padded width number) : digit.isDigit = true := by
  rcases List.mem_append.mp member with zero | inner
  · rw [List.eq_of_mem_replicate zero]
    rfl
  · exact isDigit_of_mem_ofNat inner

end DocShell.Text
