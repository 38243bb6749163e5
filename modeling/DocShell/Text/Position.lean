namespace DocShell

/-! A place in a text, counted the way an editor shows it. Lines and columns
start at one, a column is one character, and only a line feed ends a line. -/

structure Position where
  line : Nat
  column : Nat
deriving DecidableEq, Repr

namespace Position

def start : Position := ⟨1, 1⟩

def after (position : Position) (character : Char) : Position :=
  if character = '\n' then ⟨position.line + 1, 1⟩
  else ⟨position.line, position.column + 1⟩

def afterAll (position : Position) (characters : List Char) : Position :=
  characters.foldl after position

@[simp] theorem afterAll_nil (position : Position) : position.afterAll [] = position := rfl

@[simp] theorem afterAll_cons (position : Position) (character : Char)
    (rest : List Char) :
    position.afterAll (character :: rest) = (position.after character).afterAll rest := rfl

theorem afterAll_append (position : Position) (front back : List Char) :
    position.afterAll (front ++ back) = (position.afterAll front).afterAll back := by
  simp [afterAll]

example : start.afterAll ['a', '\n', 'é'] = ⟨2, 2⟩ := by decide

end Position

end DocShell
