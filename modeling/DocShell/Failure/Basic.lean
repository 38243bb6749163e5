import DocShell.Json.Basic
import DocShell.Token.Basic
import DocShell.Value.Basic

namespace DocShell

/-! # Failures

Every failure is the cause of one; the wording is a function of the cause. -/

inductive SyntaxFault
  | scan (fault : ScanFault)
  /-- A lexeme, or the end of the text, that cannot stand at its place. -/
  | unexpected (found : Option Lexeme)
  | tooDeep (limit : Nat)
  | regexOptions (options : String)
deriving DecidableEq

inductive Misuse
  | property (owner : String)
  | notFunction (kind : String)
  | operand (kind : String)
  | propertyName (kind : String)
  /-- Something of another kind than `who` expects. -/
  | expects (who what kind : String)
  | tooManyArguments (who : String) (limit given : Nat)
  | noArgument (who : String)
  | badIdentifier (text : String)
  | badInstant (who : String)
  | badDecimal (text : String)
  | badInt
  | badLong (text : String)
  | fractionalLong (number : Double)
  | badWord (part : String)
  | badSubtype
  | badBase64
  | badVerbosity (given : Value)

inductive PrecisionFault
  | longText (text : String)
  | longNumber (spelling : String)
  | decimalText (text : String)
  | jsonInteger (number : Int)
  | jsonLong (what text : String)
  | jsonDecimal (text : String)
deriving DecidableEq, Repr

inductive WrapperFault
  | malformed (what : String) (json : Json)
  | notInteger (what text : String)
  | instantRange (instant : Int)
  | badRegex (source options : String)

inductive ChainFault
  | notChain
  | noCall
  | calledRoot
  | calledResult
  | notCalled (method : String)
  | noFind (method : String)
  | afterOperation (method operation : String)
  | afterEnd (method last : String)
  | secondOperation (method : String)
deriving DecidableEq, Repr

inductive Failure
  | unreadable (fault : SyntaxFault) (position : Position)
  | undefined (name : String) (position : Position)
  | misuse (misuse : Misuse) (position : Position)
  | unsupported (target name : String)
  | chain (fault : ChainFault)
  | precision (fault : PrecisionFault)
  | wrapper (fault : WrapperFault)
  | notJson

end DocShell
