import DocShell.Command.Reading
import DocShell.CommandLine.Disk
import DocShell.CommandLine.Manual
import DocShell.Failure.Message

namespace DocShell.CommandLine

/-! # Jobs

A run reads its text, converts it, and writes the result, to a file or to the standard
output. What it asks of the system around it is answered by a host, so that one and the
same run takes place on a real system and on a modelled one. -/

/-! ## Conversion -/

def defaultIndent : Nat := 2

namespace Job

def spaces (job : Job) : Nat := job.indent.getD defaultIndent

def convert (job : Job) (text : String) : Except Failure String :=
  match job.task with
  | .encode => Value.shellOfJsonText job.spaces text
  | .decode => do return (← Value.ofShell Value.defaultLimit text).toJson.prettyText
  | .command => do
      let fields ← Command.ofShell Value.defaultLimit Command.defaultFindLimit text
      let command := Value.document fields
      return if job.shell then command.shellText job.spaces else command.toJson.prettyText

end Job

/-! ## Failures -/

inductive RunFault
  | input (fault : FileFault)
  | inputFile (name : String) (fault : FileFault)
  | conversion (task : Task) (failure : Failure)
  | outputFile (name : String) (fault : FileFault)
  | output (fault : FileFault)

def Task.attempt : Task → String
  | .encode => "Failed to encode Extended JSON as shell text"
  | .decode => "Failed to decode shell text"
  | .command => "Failed to interpret shell command"

/-- The exit codes for success, for a failed run, for a command line that makes no sense,
and for a run that crashes over its own output. -/
def succeeded : Nat := 0
def failed : Nat := 1
def misused : Nat := 2
def crashed : Nat := 101

namespace RunFault

def message : RunFault → String
  | .input fault => "Failed to read from stdin: " ++ fault.message
  | .inputFile name fault => s!"Failed to read file: {name}: " ++ fault.message
  | .conversion task failure => task.attempt ++ ": " ++ failure.message
  | .outputFile name fault => s!"Failed to write file: {name}: " ++ fault.message
  | .output fault => "failed printing to stdout: " ++ fault.message

def report : RunFault → String
  | .output fault => RunFault.message (.output fault) ++ "\n"
  | fault => "Error: " ++ fault.message ++ "\n"

def code : RunFault → Nat
  | .output _ => crashed
  | _ => failed

end RunFault

/-! ## Hosts -/

structure Host (m : Type → Type) where
  /-- A file that is open for writing. -/
  Handle : Type
  readFile : (path : String) → ExceptT FileFault m ByteArray
  /-- All that is left of the standard input. -/
  readStdin : ExceptT FileFault m ByteArray
  /-- Open a file for writing, which empties it. -/
  create : (path : String) → ExceptT FileFault m Handle
  write : Handle → ByteArray → ExceptT FileFault m Unit
  send : ByteArray → ExceptT FileFault m Unit
  complain : String → m Unit

def lineBuffer : Nat := 1024

/-- What of a text is sent at once, and the unfinished line that is held back. -/
def sendable (text : String) : String × String :=
  let backwards := text.toList.reverse
  let held := String.ofList (backwards.takeWhile (· ≠ '\n')).reverse
  let complete := String.ofList (backwards.dropWhile (· ≠ '\n')).reverse
  if held.utf8ByteSize < lineBuffer then (complete, held) else (text, "")

section

variable {m : Type → Type} [Monad m]

def readText (read : ExceptT FileFault m ByteArray) : ExceptT FileFault m String := do
  textOf (← read)

variable (host : Host m)

namespace Host

def writeFile (path text : String) : ExceptT FileFault m Unit := do
  let handle ← host.create path
  host.write handle text.toUTF8

def sendUnasked (bytes : ByteArray) : m Unit := do
  let _ ← (host.send bytes).run

/-- Print the last text of a run. What is held back of it is sent when the run is over, and
then nobody asks whether it was taken. -/
def print (text : String) : ExceptT FileFault m Unit := do
  host.send (sendable text).1.toUTF8
  ExceptT.lift (host.sendUnasked (sendable text).2.toUTF8)

end Host

/-! ## Runs -/

namespace Job

def readInput (job : Job) : ExceptT RunFault m String :=
  match job.input with
  | some path => (readText (host.readFile path)).adapt (.inputFile path)
  | none => (readText host.readStdin).adapt .input

def writeOutput (job : Job) (result : String) : ExceptT RunFault m Unit :=
  match job.output with
  | some path => (host.writeFile path result).adapt (.outputFile path)
  | none => (host.print result).adapt .output

def perform (job : Job) : ExceptT RunFault m Unit := do
  let text ← job.readInput host
  let result ← ofExcept ((job.convert text).mapError (.conversion job.task))
  job.writeOutput host result

end Job

namespace Host

def execute (job : Job) : m Nat := do
  match ← (job.perform host).run with
  | .ok () => return succeeded
  | .error fault =>
      host.complain fault.report
      return fault.code

def announce (text : String) : m Nat := do
  let _ ← (host.print text).run
  return succeeded

def versionLine : String := "ejson 0.1.0\n"

def run (manual : Manual) (arguments : List String) : m Nat :=
  match request? false arguments with
  | none => do
      host.complain (manual.complaint arguments)
      return misused
  | some .version => host.announce versionLine
  | some (.help topic) => host.announce (manual.help topic)
  | some (.job job) => host.execute job

end Host

end

end DocShell.CommandLine
