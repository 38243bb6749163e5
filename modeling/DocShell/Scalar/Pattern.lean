namespace DocShell

/-! # Regular expressions

A pattern in its source form, with option letters. The pattern is never run. -/

structure Pattern where
  source : String
  options : String
deriving DecidableEq, Repr

namespace Pattern

def optionLetters : List Char := ['d', 'g', 'i', 'm', 's', 'u', 'v', 'x', 'y']

/-- A regular expression with its options in order. Options must be distinct
letters out of the nine. A source that starts with `*` is refused, as `/*` would
open a comment. -/
def new? (source options : String) : Option Pattern :=
  let letters := options.toList
  if source.toList.head? ≠ some '*' ∧ letters.Nodup ∧ letters.all (· ∈ optionLetters) then
    some ⟨source, String.ofList (optionLetters.filter (· ∈ letters))⟩
  else none

end Pattern

end DocShell
