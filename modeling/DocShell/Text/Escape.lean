import DocShell.Text.Digits
import DocShell.Text.Surrogate

namespace DocShell

/-! # Escapes in quoted literals

A backslash gives the next character another meaning: control characters by
letter, code points in hexadecimal, a line break that is left out, and otherwise
the character itself. Pairs of surrogates denote one character; halves of pairs
denote none. -/

inductive EscapeFault
  | hexadecimal
  | unicode
  | beyondUnicode
  | loneSurrogate
  | octal
deriving DecidableEq, Repr

namespace Escape

/-- The digits of a code point in braces with the closing brace, behind `count`
characters that are read already. A code point that grows too large is reported
before anything behind it. -/
def bracedCode (code count : Nat) : List Char → Except EscapeFault (Nat × Nat)
  | [] => .error .unicode
  | character :: rest =>
      match Text.hexValue? character with
      | some digit =>
          if 16 * code + digit ≤ 0x10FFFF then bracedCode (16 * code + digit) (count + 1) rest
          else .error .beyondUnicode
      | none => if character = '}' ∧ 1 < count then .ok (code, count + 1) else .error .unicode

/-- The code point behind a backslash and `u`, with the number of characters that
spell it: four digits, or any number of digits in braces. -/
def codePoint (text : List Char) : Except EscapeFault (Nat × Nat) :=
  match text with
  | '{' :: rest => bracedCode 0 1 rest
  | _ =>
      match Text.hexPrefix? 4 text with
      | some code => .ok (code, 4)
      | none => .error .unicode

def control? (letter : Char) : Option Char :=
  if letter = 'n' then some '\n'
  else if letter = 't' then some '\t'
  else if letter = 'r' then some '\r'
  else if letter = 'b' then some '\x08'
  else if letter = 'f' then some '\x0c'
  else if letter = 'v' then some '\x0b'
  else none

def startsWithDigit : List Char → Bool
  | character :: _ => character.isDigit
  | [] => false

def decode : List Char → Except EscapeFault (List Char)
  | [] => .ok []
  | '\\' :: 'x' :: rest =>
      match Text.hexPrefix? 2 rest with
      | some code => do return Char.ofNat code :: (← decode (rest.drop 2))
      | none => .error .hexadecimal
  | '\\' :: 'u' :: rest =>
      match codePoint rest with
      | .error fault => .error fault
      | .ok (code, count) =>
          if Text.isHighSurrogate code then
            match _paired : rest.drop count with
            | '\\' :: 'u' :: second =>
                match codePoint second with
                | .error fault => .error fault
                | .ok (low, lowCount) =>
                    if Text.isLowSurrogate low then do
                      return Char.ofNat (Text.pairedCode code low) ::
                        (← decode (second.drop lowCount))
                    else .error .loneSurrogate
            | _ => .error .loneSurrogate
          else if Text.isLowSurrogate code then .error .loneSurrogate
          else do return Char.ofNat code :: (← decode (rest.drop count))
  | '\\' :: character :: rest =>
      match control? character with
      | some control => do return control :: (← decode rest)
      | none =>
          if character = '0' ∧ !startsWithDigit rest then do return '\x00' :: (← decode rest)
          else if character = '\n' then decode rest
          else if character.isDigit then .error .octal
          else do return character :: (← decode rest)
  | character :: rest => do return character :: (← decode rest)
termination_by text => text.length
decreasing_by
  all_goals try (have lengths := congrArg List.length _paired)
  all_goals simp only [List.length_drop, List.length_cons] at *; omega

end Escape

end DocShell
