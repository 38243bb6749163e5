import DocShell.CommandLine.Job

namespace DocShell.CommandLine

/-! # The program

The host that hands the requests of a run to the system. -/

def FileFault.ofError : IO.Error → FileFault
  | .noFileOrDirectory _ _ _ => .missing
  | .inappropriateType _ 20 _ => .notDirectory
  | .inappropriateType _ _ _ => .directory
  | .invalidArgument _ 36 _ => .longName
  | .permissionDenied _ 13 _ => .denied
  | .resourceExhausted _ 28 _ => .noSpace
  | error => .other (toString error)

def caught {α : Type} (action : IO α) : ExceptT FileFault IO α :=
  ExceptT.mk do
    try
      return .ok (← action)
    catch error => return .error (.ofError error)

partial def readToEnd (stream : IO.FS.Stream) (read : ByteArray) : IO ByteArray := do
  let more ← stream.read 65536
  if more.isEmpty then return read else readToEnd stream (read ++ more)

def system : Host IO where
  Handle := IO.FS.Handle
  readFile path := caught do (← IO.FS.Handle.mk path .read).readBinToEnd
  readStdin := caught do readToEnd (← IO.getStdin) .empty
  create path := caught (IO.FS.Handle.mk path .write)
  write handle bytes := caught do
    handle.write bytes
    handle.flush
  send bytes := caught do
    let stdout ← IO.getStdout
    stdout.write bytes
    stdout.flush
  complain text := IO.eprint text

end DocShell.CommandLine

open DocShell.CommandLine in
def main (arguments : List String) : IO UInt32 := do
  return (← system.run .standard arguments).toUInt32
