import DocShell.Text.Digits

namespace DocShell.Text

/-! # Quoted text

Text between double quotes. Quotes, backslashes and control characters are
escaped, everything else stands for itself, so that a quoted text never contains
a line break. -/

def escaped (character : Char) : List Char :=
  if character = '"' then ['\\', '"']
  else if character = '\\' then ['\\', '\\']
  else if character = '\n' then ['\\', 'n']
  else if character = '\r' then ['\\', 'r']
  else if character = '\t' then ['\\', 't']
  else if character = '\x08' then ['\\', 'b']
  else if character = '\x0c' then ['\\', 'f']
  else if character.toNat < 0x20 then '\\' :: 'u' :: hexText 4 character.toNat
  else [character]

def quoted (text : String) : List Char :=
  '"' :: text.toList.flatMap escaped ++ ['"']

example : quoted "a\n" = ['"', 'a', '\\', 'n', '"'] := by decide

end DocShell.Text
