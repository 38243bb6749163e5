import DocShell.CommandLine.Path

namespace DocShell.CommandLine

/-! # Directories and files

A path leads from one directory to the next, up and down, and ends in a directory or
names something in it. A file is read whole. It is emptied when it is opened for
writing, and what is then written to it may be more than the system takes. -/

/-! ## Limits -/

/-- How many bytes something takes, and what the system says to more of them. -/
structure Limit where
  size : Nat
  cause : FileFault

namespace Limit

def cut : Option Limit → ByteArray → ByteArray
  | none, content => content
  | some limit, content => content.extract 0 limit.size

def check : Option Limit → Nat → Except FileFault Unit
  | none, _ => .ok ()
  | some limit, size => if limit.size < size then .error limit.cause else .ok ()

end Limit

/-! ## Trees of directories -/

/-- A place in the tree of directories: the names that lead there from the root, the last
one first. -/
abbrev Location := List String

inductive Node
  | directory
  | file (content : ByteArray)

inductive Access
  | pass
  | read
  | write
deriving DecidableEq, Repr

structure Disk where
  /-- The directory that paths start from. -/
  home : Location
  /-- What is kept in the directories, the latest first. -/
  nodes : List (Location × Node)
  /-- Why the system refuses to pass, read or write something, where it does. -/
  refusal? : Access → Location → Option FileFault
  limit? : Location → Option Limit

inductive Place
  | directory (location : Location)
  /-- A name in a directory, whether or not something is kept under it. -/
  | entry (directory : Location) (name : String)
deriving DecidableEq, Repr

namespace Disk

/-- What is kept at a location. The root is always there. -/
def node? (disk : Disk) : Location → Option Node
  | [] => some .directory
  | location => disk.nodes.lookup location

def content (disk : Disk) (location : Location) : ByteArray :=
  match disk.node? location with
  | some (.file content) => content
  | _ => .empty

def store (disk : Disk) (location : Location) (content : ByteArray) : Disk :=
  { disk with nodes := (location, .file content) :: disk.nodes }

def allow (disk : Disk) (access : Access) (location : Location) : Except FileFault Unit :=
  match disk.refusal? access location with
  | some cause => .error cause
  | none => .ok ()

/-! ## Paths -/

def follow (disk : Disk) (directory : Location) : List String → Except FileFault Place
  | [] => .ok (.directory directory)
  | step :: rest => do
      disk.allow .pass directory
      if step = "." then disk.follow directory rest
      else if step = ".." then disk.follow directory.tail rest
      else if rest = [] then .ok (.entry directory step)
      else if isLongName step then .error .longName
      else
        match disk.node? (step :: directory) with
        | some .directory => disk.follow (step :: directory) rest
        | some (.file _) => .error .notDirectory
        | none => .error .missing

def place (disk : Disk) (path : String) : Except FileFault Place :=
  if path = "" then .error .missing
  else if pathLimit < path.utf8ByteSize then .error .longName
  else disk.follow (if startsWithSlash path then [] else disk.home) (pathSteps path)

/-! ## Reading and writing -/

def read (disk : Disk) (path : String) : Except FileFault ByteArray := do
  match ← disk.place path with
  | .directory location => do
      disk.allow .read location
      .error .directory
  | .entry directory name =>
      if isLongName name then .error .longName
      else
        match disk.node? (name :: directory) with
        | none => .error .missing
        | some .directory => do
            disk.allow .read (name :: directory)
            .error .directory
        | some (.file content) =>
            if endsWithSlash path then .error .notDirectory
            else do
              disk.allow .read (name :: directory)
              return content

/-- Open the file that a path leads to for writing. It need not be there before, and
nothing is left of what it held. -/
def create (disk : Disk) (path : String) : Except FileFault (Location × Disk) := do
  match ← disk.place path with
  | .directory _ => .error .directory
  | .entry directory name =>
      if endsWithSlash path then .error .directory
      else if isLongName name then .error .longName
      else
        match disk.node? (name :: directory) with
        | some .directory => .error .directory
        | _ => do
            disk.allow .write (name :: directory)
            return (name :: directory, disk.store (name :: directory) .empty)

/-- The disk after bytes were written behind those of an open file, as many as it takes,
and whether it took them all. -/
def append (disk : Disk) (location : Location) (bytes : ByteArray) :
    Except FileFault Unit × Disk :=
  let whole := disk.content location ++ bytes
  let limit? := disk.limit? location
  (Limit.check limit? whole.size, disk.store location (Limit.cut limit? whole))

end Disk

def textOf (content : ByteArray) : Except FileFault String :=
  match String.fromUTF8? content with
  | some text => .ok text
  | none => .error .notText

end DocShell.CommandLine
