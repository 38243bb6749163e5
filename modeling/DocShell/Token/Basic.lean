import DocShell.Number.Double
import DocShell.Text.Escape
import DocShell.Text.Position

namespace DocShell

/-! # Tokens of shell text -/

inductive Mark
  | braceOpen
  | braceClose
  | bracketOpen
  | bracketClose
  | parenOpen
  | parenClose
  | comma
  | colon
  | dot
  | semicolon
  | plus
  | minus
deriving DecidableEq, Repr

namespace Mark

def all : List Mark :=
  [.braceOpen, .braceClose, .bracketOpen, .bracketClose, .parenOpen, .parenClose, .comma,
    .colon, .dot, .semicolon, .plus, .minus]

def character : Mark → Char
  | .braceOpen => '{'
  | .braceClose => '}'
  | .bracketOpen => '['
  | .bracketClose => ']'
  | .parenOpen => '('
  | .parenClose => ')'
  | .comma => ','
  | .colon => ':'
  | .dot => '.'
  | .semicolon => ';'
  | .plus => '+'
  | .minus => '-'

def ofCharacter? (character : Char) : Option Mark := all.find? (·.character = character)

end Mark

/-- A number as it is written, with the double it denotes. The spelling matters
to the types that keep exact digits. -/
structure NumberLiteral where
  value : Double
  spelling : String
deriving DecidableEq

inductive Lexeme
  | mark (mark : Mark)
  | string (text : String)
  | number (literal : NumberLiteral)
  /-- The source between the slashes as it stands there, and the letters behind. -/
  | regex (source options : String)
  | word (name : String)
deriving DecidableEq

def Lexeme.describe : Option Lexeme → String
  | some (.mark sign) => "'" ++ String.singleton sign.character ++ "'"
  | some (.string _) => "string"
  | some (.number literal) => "number " ++ literal.spelling
  | some (.regex _ _) => "regular expression"
  | some (.word name) => "identifier '" ++ name ++ "'"
  | none => "end of input"

structure Token where
  lexeme : Lexeme
  position : Position
deriving DecidableEq

inductive ScanFault
  | unexpectedCharacter
  | openString
  | openComment
  | openRegex
  | legacyOctal
  | badNumber (spelling : String)
  | escape (fault : EscapeFault)
deriving DecidableEq

end DocShell
