namespace DocShell.Text

/-! # Surrogate pairs

An escape of four hexadecimal digits stops at U+FFFF. What lies beyond is spelled
in two halves, a high one and a low one, and a half alone denotes no character. -/

def isHighSurrogate (code : Nat) : Bool := 0xD800 ≤ code && code < 0xDC00

def isLowSurrogate (code : Nat) : Bool := 0xDC00 ≤ code && code < 0xE000

def pairedCode (high low : Nat) : Nat := 0x10000 + (high - 0xD800) * 0x400 + (low - 0xDC00)

example : pairedCode 0xD83D 0xDE00 = 0x1F600 := rfl

/-- Two halves denote a code point beyond U+FFFF. -/
theorem pairedCode_bounds {high low : Nat} (isHigh : isHighSurrogate high = true)
    (isLow : isLowSurrogate low = true) :
    0x10000 ≤ pairedCode high low ∧ pairedCode high low < 0x110000 := by
  simp only [isHighSurrogate, isLowSurrogate, Bool.and_eq_true, decide_eq_true_eq] at isHigh isLow
  unfold pairedCode
  omega

end DocShell.Text
