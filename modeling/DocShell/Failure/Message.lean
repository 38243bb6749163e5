import DocShell.Failure.Basic
import DocShell.Json.Writing
import DocShell.Value.Written

namespace DocShell

/-! # The wording of failures -/

def EscapeFault.message : EscapeFault → String
  | .hexadecimal => "Invalid hexadecimal escape sequence"
  | .unicode => "Invalid Unicode escape sequence"
  | .beyondUnicode => "Undefined Unicode code-point"
  | .loneSurrogate => "Lone surrogate in string literal"
  | .octal => "Octal escape sequences are not allowed"

def ScanFault.message : ScanFault → String
  | .unexpectedCharacter => "Invalid or unexpected token"
  | .openString => "Unterminated string literal"
  | .openComment => "Unterminated comment"
  | .openRegex => "Invalid regular expression: missing /"
  | .legacyOctal => "Octal literals are not allowed"
  | .badNumber spelling => s!"Invalid number '{spelling}'"
  | .escape fault => fault.message

def SyntaxFault.message : SyntaxFault → String
  | .scan fault => fault.message
  | .unexpected found => "Unexpected " ++ Lexeme.describe found
  | .tooDeep limit => s!"Maximum nesting depth of {limit} exceeded"
  | .regexOptions options => s!"Invalid regular expression flags '{options}'"

def Misuse.message : Misuse → String
  | .property owner => s!"property access on {owner} is not supported"
  | .notFunction kind => s!"{kind} is not a function"
  | .operand kind => s!"unary operator is not supported on {kind}"
  | .propertyName kind => s!"property name must be a string, got {kind}"
  | .expects who what kind => s!"{who} expects {what}, got {kind}"
  | .tooManyArguments who limit given =>
      s!"{who}() takes at most {limit} argument(s), got {given}"
  | .noArgument who => s!"{who} requires an argument"
  | .badIdentifier text => s!"ObjectId expects a 24-character hex string, got \"{text}\""
  | .badInstant who => s!"{who}: invalid time value"
  | .badDecimal text => s!"NumberDecimal(\"{text}\") is not a decimal number"
  | .badInt => "NumberInt expects a 32-bit integer"
  | .badLong text => s!"NumberLong(\"{text}\") is not an integer"
  | .fractionalLong number =>
      "NumberLong(" ++ String.ofList number.plainText ++ ") is not an integer"
  | .badWord part => s!"{part} must be an unsigned 32-bit integer"
  | .badSubtype => "BinData subtype must be an integer between 0 and 255"
  | .badBase64 => "BinData payload is not valid base64"
  | .badVerbosity given =>
      "explain verbosity must be one of queryPlanner, executionStats, allPlansExecution, got " ++
        given.shellText 0

/-- An integer that a signed word of 64 bits holds has a typed form to point to. -/
def PrecisionFault.message : PrecisionFault → String
  | .longText text => s!"NumberLong(\"{text}\") is outside the 64-bit integer range"
  | .longNumber spelling =>
      s!"NumberLong({spelling}) cannot be represented exactly; pass the digits as a string"
  | .decimalText text => s!"NumberDecimal(\"{text}\") does not fit in 128-bit decimal precision"
  | .jsonInteger number =>
      let digits := String.ofList (Text.ofInt number)
      let refusal := s!"integer {digits} cannot be held exactly as a plain number"
      if FitsLong number then refusal ++ s!"; use \x7b\"$numberLong\": \"{digits}\"\x7d"
      else refusal
  | .jsonLong what text => s!"{what} \"{text}\" is outside the 64-bit range"
  | .jsonDecimal text => s!"$numberDecimal \"{text}\" exceeds 128-bit decimal precision"

def WrapperFault.message : WrapperFault → String
  | .malformed what json => s!"malformed {what}: " ++ json.compactText
  | .notInteger what text => s!"{what} \"{text}\" is not an integer"
  | .instantRange instant =>
      "$date " ++ String.ofList (Text.ofInt instant) ++
        " is outside the range of ±8640000000000000 ms"
  | .badRegex source options => s!"invalid regular expression /{source}/{options}"

def ChainFault.message : ChainFault → String
  | .notChain => "expected db.<collection>.<operation>(...)"
  | .noCall => "expected an operation call such as find()"
  | .calledRoot => "db is not a function"
  | .calledResult => "unexpected call on a command result"
  | .notCalled method => s!"{method} must be called as {method}()"
  | .noFind method => s!"{method}() must follow find() or findOne()"
  | .afterOperation method operation =>
      s!"{method}() cannot follow {operation}(); it is only valid after find() or findOne()"
  | .afterEnd method last => s!"{method}() cannot follow {last}(), which ends the chain"
  | .secondOperation method => s!"{method}() cannot be chained onto a find()"

inductive Failure.Class
  | syntaxError
  | referenceError
  | typeError
  | unsupportedOperation
  | invalidChainState
  | precisionLoss
  | extendedJson
  | json
deriving DecidableEq, Repr

namespace Failure

def family : Failure → Class
  | .unreadable _ _ => .syntaxError
  | .undefined _ _ => .referenceError
  | .misuse _ _ => .typeError
  | .unsupported _ _ => .unsupportedOperation
  | .chain _ => .invalidChainState
  | .precision _ => .precisionLoss
  | .wrapper _ => .extendedJson
  | .notJson => .json

def position? : Failure → Option Position
  | .unreadable _ position => some position
  | .undefined _ position => some position
  | .misuse _ position => some position
  | _ => none

private def located (text : String) (position : Position) : String :=
  let line := position.line
  let column := position.column
  s!"{text} (line {line}, column {column})"

def message : Failure → String
  | .unreadable fault position => located ("SyntaxError: " ++ fault.message) position
  | .undefined name position => located s!"ReferenceError: {name} is not defined" position
  | .misuse fault position => located ("TypeError: " ++ fault.message) position
  | .unsupported target name =>
      s!"UnsupportedOperation: {target}.{name}() is not supported"
  | .chain fault => "InvalidChainState: " ++ fault.message
  | .precision fault => "PrecisionLoss: " ++ fault.message
  | .wrapper fault => "Invalid Extended JSON: " ++ fault.message
  | .notJson => "JSON parse error: "

end Failure

end DocShell
