import DocShell.Text.Alphabetic
import DocShell.Text.Letter
import DocShell.Text.Numeral

namespace DocShell.Text

/-! # Words

A word begins with a letter, an underscore or a dollar sign, and goes on with
those and numerals. The run of option letters behind a regular expression takes
letter-like and recent characters as well. -/

def isWordStart (character : Char) : Bool :=
  isLetter character || character = '_' || character = '$'

def isWordPart (character : Char) : Bool := isWordStart character || isNumeral character

def wordLength : List Char → Nat
  | [] => 0
  | first :: rest => if isWordStart first then (rest.takeWhile isWordPart).length + 1 else 0

/-! ## Recent characters

These are the letters, the marks that stand in for letters, and the
numerals that Unicode 17 added. The tables of letters, numerals and letter-like
characters are those of Unicode 16 and hold none of them. -/

def recentRanges : List (Nat × Nat) :=
  [
    (0x88f, 0x88f), (0xc5c, 0xc5c), (0xcdc, 0xcdc), (0xa7ce, 0xa7cf), (0xa7d2, 0xa7d2),
    (0xa7d4, 0xa7d4), (0xa7f1, 0xa7f1), (0x10940, 0x10959), (0x10ec5, 0x10ec7),
    (0x10efa, 0x10efb), (0x11b60, 0x11b67), (0x11db0, 0x11ddb), (0x11de0, 0x11de9),
    (0x16ea0, 0x16eb8), (0x16ebb, 0x16ed3), (0x16ff2, 0x16ff6), (0x187f8, 0x187ff),
    (0x18d09, 0x18d1e), (0x18d80, 0x18df2), (0x1e6c0, 0x1e6de), (0x1e6e0, 0x1e6f5),
    (0x1e6fe, 0x1e6ff), (0x2b73a, 0x2b73f), (0x2cea2, 0x2cead), (0x323b0, 0x33479)]

def isRecent (character : Char) : Bool := inRanges character.toNat recentRanges

example : isRecent '\u088f' = true ∧ isRecent '\u088e' = false ∧ isRecent 'a' = false := by decide

def isOptionPart (character : Char) : Bool :=
  isWordPart character || isLetterLike character || isRecent character

end DocShell.Text
