namespace DocShell.CommandLine

/-! # Paths

A path is a text of steps with slashes between them. -/

inductive FileFault
  | missing
  | directory
  /-- A path goes on behind a file. -/
  | notDirectory
  | longName
  | denied
  | noSpace
  | notText
  /-- Anything else the system reports, in its own words. -/
  | other (report : String)
deriving DecidableEq, Repr

def FileFault.message : FileFault → String
  | .missing => "No such file or directory (os error 2)"
  | .directory => "Is a directory (os error 21)"
  | .notDirectory => "Not a directory (os error 20)"
  | .longName => "File name too long (os error 36)"
  | .denied => "Permission denied (os error 13)"
  | .noSpace => "No space left on device (os error 28)"
  | .notText => "stream did not contain valid UTF-8"
  | .other report => report

def nameLimit : Nat := 255

def isLongName (name : String) : Bool := nameLimit < name.utf8ByteSize

def pathLimit : Nat := 4095

/-- The steps of a path. Slashes in a row count as one. -/
def pathSteps (path : String) : List String :=
  ((path.toList.splitBy fun left right => left ≠ '/' && right ≠ '/').filter (· ≠ ['/'])).map
    String.ofList

def startsWithSlash (path : String) : Bool := path.toList.head? = some '/'

def endsWithSlash (path : String) : Bool := path.toList.getLast? = some '/'

example : pathSteps ".//a/b" = [".", "a", "b"] := by decide +kernel

end DocShell.CommandLine
