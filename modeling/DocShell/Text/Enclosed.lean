namespace DocShell.Text

/-! # Enclosed lists

The parts of a container between two brackets, on one line or a line each. A
container without parts is its two brackets alone. -/

structure Spacing where
  before : List Char
  between : List Char
  behind : List Char

namespace Spacing

def spaces (count : Nat) : List Char := List.replicate count ' '

def oneLine (padding between : List Char) : Spacing := ⟨padding, between, padding⟩

/-- A line for each part, one level deeper than the brackets at `depth`. -/
def lines (indent depth : Nat) : Spacing :=
  let inner := '\n' :: spaces (indent * (depth + 1))
  ⟨inner, ',' :: inner, '\n' :: spaces (indent * depth)⟩

end Spacing

def joined (separator : List Char) : List (List Char) → List Char
  | [] => []
  | [part] => part
  | part :: rest => part ++ separator ++ joined separator rest

def enclosed (opening closing : Char) (spacing : Spacing) (parts : List (List Char)) :
    List Char :=
  if parts = [] then [opening, closing]
  else opening :: spacing.before ++ joined spacing.between parts ++ spacing.behind ++ [closing]

end DocShell.Text
