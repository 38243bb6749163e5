import DocShell.Number.Decimal
import DocShell.Text.Blank
import DocShell.Text.Word
import DocShell.Token.Basic

namespace DocShell.Token

/-! # Cutting text into tokens

The first characters of a text decide what stands there; how far it reaches is a
count of characters. Of the forms that a number can have, the longest wins. There
is no division, so a slash that opens no comment opens a regular expression. -/

inductive Piece
  | gap
  | lexeme (lexeme : Lexeme)

/-! ## Extents -/

/-- The distance to the quote that closes a string, which stays on one line. -/
def closingQuote? (quote : Char) : List Char → Option Nat
  | [] => none
  | ['\\'] => none
  | '\\' :: _ :: rest => (closingQuote? quote rest).map (· + 2)
  | character :: rest =>
      if character = quote then some 0
      else if character = '\n' then none
      else (closingQuote? quote rest).map (· + 1)

/-- The distance to the slash that closes a regular expression. A slash in a
class of characters does not, and neither does one behind a backslash. -/
def closingSlash? (inClass : Bool) : List Char → Option Nat
  | [] => none
  | ['\\'] => none
  | '\\' :: escaped :: rest =>
      if escaped = '\n' then none else (closingSlash? inClass rest).map (· + 2)
  | character :: rest =>
      if character = '\n' then none
      else if character = '/' ∧ !inClass then some 0
      else
        let inClass := if character = '[' then true else if character = ']' then false else inClass
        (closingSlash? inClass rest).map (· + 1)

def commentLength? : List Char → Option Nat
  | '*' :: '/' :: _ => some 2
  | _ :: rest => (commentLength? rest).map (· + 1)
  | [] => none

/-! ## Numbers -/

def base? (letter : Char) : Option Nat :=
  if letter = 'x' ∨ letter = 'X' then some 16
  else if letter = 'o' ∨ letter = 'O' then some 8
  else if letter = 'b' ∨ letter = 'B' then some 2
  else none

def basedLength : List Char → Nat
  | '0' :: letter :: rest =>
      match base? letter with
      | some base =>
          let digits := rest.takeWhile fun digit => (Text.digitIn? base digit).isSome
          if digits = [] then 0 else digits.length + 2
      | none => 0
  | _ => 0

def decimalLength (text : List Char) : Nat :=
  match Numeral.take? text with
  | some (_, rest) => text.length - rest.length
  | none => 0

/-- How many characters of a text form a number that runs into a word. -/
def brokenLength (text : List Char) : Nat :=
  let (whole, behind) := Numeral.takeDigits text
  let (_, behind) := Numeral.takeFraction behind
  let word := Text.wordLength behind
  if whole = [] ∨ word = 0 then 0 else text.length - behind.length + word

def appendDigit (base : Nat) (number : Double) (digit : Nat) : Double :=
  match number with
  | .finite negative magnitude =>
      .ofMagnitude negative
        (Magnitude.nearest? (magnitude.units * base + digit * Magnitude.unitsPerOne) 1)
  | other => other

/-- The double of a number in another base, rounded after each of its digits. -/
def basedValue (base : Nat) (digits : List Char) : Double :=
  digits.foldl (fun number digit => appendDigit base number ((Text.digitIn? base digit).getD 0))
    .zero

def number (text : List Char) : Except ScanFault (NumberLiteral × Nat) :=
  let based := basedLength text
  let decimal := decimalLength text
  let broken := brokenLength text
  if max based decimal < broken then
    .error (.badNumber (String.ofList (text.take broken)))
  else if decimal < based then
    let base := (text.tail.head?.bind base?).getD 10
    .ok (⟨basedValue base ((text.take based).drop 2), String.ofList (text.take based)⟩, based)
  else
    match Numeral.take? text with
    | some (numeral, _) =>
        if numeral.whole.head? = some '0' ∧ numeral.whole ≠ ['0'] then .error .legacyOctal
        else .ok (⟨numeral.toDouble false, String.ofList (text.take decimal)⟩, decimal)
    | none => .error .unexpectedCharacter

/-! ## Steps -/

def slash : List Char → Except ScanFault (Piece × Nat)
  | '/' :: rest => .ok (.gap, (rest.takeWhile (· ≠ '\n')).length + 1)
  | '*' :: rest =>
      match commentLength? rest with
      | some count => .ok (.gap, count + 1)
      | none => .error .openComment
  | rest =>
      match closingSlash? false rest with
      | some count =>
          let options := (rest.drop (count + 1)).takeWhile Text.isOptionPart
          .ok (.lexeme (.regex (String.ofList (rest.take count)) (String.ofList options)),
            count + 1 + options.length)
      | none => .error .openRegex

def quotation (quote : Char) (rest : List Char) : Except ScanFault (Piece × Nat) :=
  match closingQuote? quote rest with
  | some count =>
      match Escape.decode (rest.take count) with
      | .ok text => .ok (.lexeme (.string (String.ofList text)), count + 1)
      | .error fault => .error (.escape fault)
  | none => .error .openString

def step (first : Char) (rest : List Char) : Except ScanFault (Piece × Nat) :=
  if Text.isBlank first then .ok (.gap, (rest.takeWhile Text.isBlank).length)
  else if first.isDigit ∨ first = '.' ∧ Escape.startsWithDigit rest then
    match number (first :: rest) with
    | .ok (literal, count) => .ok (.lexeme (.number literal), count - 1)
    | .error fault => .error fault
  else if first = '"' ∨ first = '\'' then quotation first rest
  else if first = '/' then slash rest
  else if Text.isWordStart first then
    let behind := rest.takeWhile Text.isWordPart
    .ok (.lexeme (.word (String.ofList (first :: behind))), behind.length)
  else
    match Mark.ofCharacter? first with
    | some mark => .ok (.lexeme (.mark mark), 0)
    | none => .error .unexpectedCharacter

/-! ## The whole text -/

/-- The tokens of a text that begins at `position`, and the position of its end.
A fault is located at the start of what it spoils. -/
def scanFrom (position : Position) :
    List Char → Except (ScanFault × Position) (List Token × Position)
  | [] => .ok ([], position)
  | first :: rest =>
      match step first rest with
      | .error fault => .error (fault, position)
      | .ok (piece, count) =>
          match scanFrom (position.afterAll (first :: rest.take count)) (rest.drop count) with
          | .error located => .error located
          | .ok (tokens, finish) =>
              match piece with
              | .gap => .ok (tokens, finish)
              | .lexeme lexeme => .ok (⟨lexeme, position⟩ :: tokens, finish)
termination_by text => text.length
decreasing_by simp only [List.length_drop, List.length_cons]; omega

def scan (text : String) : Except (ScanFault × Position) (List Token × Position) :=
  scanFrom .start text.toList

end DocShell.Token
