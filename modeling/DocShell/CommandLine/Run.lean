import DocShell.CommandLine.Job
import DocShell.Fields

namespace DocShell.CommandLine

/-! # Runs on a modelled system

Files are those of a disk, and what was done before something fails stays done. -/

structure System where
  stdin : Except FileFault ByteArray
  disk : Disk
  /-- What the standard output takes, if not everything. -/
  stdout? : Option Limit
  manual : Manual

structure Progress where
  system : System
  printed : ByteArray
  reported : String

namespace Progress

def withDisk (progress : Progress) (disk : Disk) : Progress :=
  { progress with system := { progress.system with disk } }

def withoutStdin (progress : Progress) : Progress :=
  { progress with system := { progress.system with stdin := .ok .empty } }

def withPrinted (progress : Progress) (printed : ByteArray) : Progress :=
  { progress with printed }

def withReported (progress : Progress) (reported : String) : Progress :=
  { progress with reported }

section

variable {progress : Progress} {printed : ByteArray}

@[simp]
theorem withPrinted_system : (progress.withPrinted printed).system = progress.system := rfl

@[simp]
theorem withPrinted_printed : (progress.withPrinted printed).printed = printed := rfl

end

end Progress

abbrev Action := StateM Progress

namespace Action

def readFile (path : String) : ExceptT FileFault Action ByteArray := do
  let progress ← getThe Progress
  progress.system.disk.read path

def readStdin : ExceptT FileFault Action ByteArray := do
  let progress ← getThe Progress
  set progress.withoutStdin
  progress.system.stdin

def create (path : String) : ExceptT FileFault Action Location := do
  let progress ← getThe Progress
  let (location, disk) ← progress.system.disk.create path
  set (progress.withDisk disk)
  return location

def write (location : Location) (bytes : ByteArray) : ExceptT FileFault Action Unit := do
  let progress ← getThe Progress
  let (taken, disk) := progress.system.disk.append location bytes
  set (progress.withDisk disk)
  taken

def send (bytes : ByteArray) : ExceptT FileFault Action Unit := do
  let progress ← getThe Progress
  let whole := progress.printed ++ bytes
  set (progress.withPrinted (Limit.cut progress.system.stdout? whole))
  Limit.check progress.system.stdout? whole.size

def complain (text : String) : Action Unit :=
  modify fun progress => progress.withReported (progress.reported ++ text)

end Action

def modelled : Host Action where
  Handle := Location
  readFile := Action.readFile
  readStdin := Action.readStdin
  create := Action.create
  write := Action.write
  send := Action.send
  complain := Action.complain

structure Ending where
  code : Nat
  stdout : ByteArray
  stderr : String
  disk : Disk

namespace Progress

def ending (progress : Progress) (code : Nat) : Ending :=
  ⟨code, progress.printed, progress.reported, progress.system.disk⟩

end Progress

namespace System

def begin (system : System) : Progress := ⟨system, .empty, ""⟩

def run (system : System) (arguments : List String) : Ending :=
  let (code, progress) := (modelled.run system.manual arguments).run system.begin
  progress.ending code

end System

/-! ## Runs in one directory

Where all that is known are the texts in the directory that paths start from, the
directories above it have no names, and what is written to them is not seen again.
Nothing is refused there, and there is room for everything. -/

structure World where
  stdin : ByteArray
  files : Fields String

namespace World

/-- The directory that paths start from, under a name that is no step of a path. -/
def home : Location := ["/"]

def disk (world : World) : Disk where
  home := home
  nodes := world.files.foldl (fun nodes (name, text) => (name :: home, .file text.toUTF8) :: nodes)
    [(home, .directory)]
  refusal? _ _ := none
  limit? _ := none

def system (world : World) : System := ⟨.ok world.stdin, world.disk, none, .standard⟩

end World

def Disk.texts (disk : Disk) : Fields String :=
  disk.nodes.foldr (fun (location, node) texts =>
      match location, node with
      | name :: directory, .file content =>
          if directory = disk.home then
            match textOf content with
            | .ok text => Fields.insert name text texts
            | .error _ => texts
          else texts
      | _, _ => texts)
    []

structure Outcome where
  code : Nat
  stdout : String
  stderr : String
  files : Fields String

def run (arguments : List String) (world : World) : Outcome :=
  let ending := world.system.run arguments
  ⟨ending.code, (String.fromUTF8? ending.stdout).getD "", ending.stderr, ending.disk.texts⟩

end DocShell.CommandLine
