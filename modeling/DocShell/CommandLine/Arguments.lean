import DocShell.Text.Digits

namespace DocShell.CommandLine

/-! # Arguments of the command line

A task comes first, then its options in any order, each at most once. The flag
for more messages may also stand before the task. The value of an option is the
next argument, or it is attached to the option. Help may be asked for before the task
and among its options; from there on nothing is looked at any more. -/

inductive Task
  | encode
  | decode
  | command
deriving DecidableEq, Repr

structure Job where
  task : Task
  input : Option String
  output : Option String
  indent : Option Nat
  shell : Bool
  verbose : Bool
deriving DecidableEq, Repr

inductive Topic
  | program
  | task (task : Task)
  | help
deriving DecidableEq, Repr

inductive Request
  | version
  | help (topic : Topic)
  | job (job : Job)
deriving DecidableEq, Repr

namespace Task

def name : Task → String
  | .encode => "encode"
  | .decode => "decode"
  | .command => "command"

def all : List Task := [.encode, .decode, .command]

def ofName? (name : String) : Option Task := all.find? (·.name = name)

def takesIndent : Task → Bool
  | .decode => false
  | _ => true

end Task

def Topic.ofNames? : List String → Option Topic
  | [] => some .program
  | [name] => if name = "help" then some .help else (Task.ofName? name).map .task
  | _ => none

def Job.ofTask (task : Task) : Job := ⟨task, none, none, none, false, false⟩

/-! ## Single options -/

inductive Setting
  | input
  | output
  | indent
deriving DecidableEq, Repr

namespace Setting

def long : Setting → String
  | .input => "--input"
  | .output => "--output"
  | .indent => "--indent"

def letter? : Setting → Option Char
  | .input => some 'i'
  | .output => some 'o'
  | .indent => none

def all : List Setting := [.input, .output, .indent]

/-- An option together with the value attached to it, if there is one. A value is
attached to the long form by an equals sign, and to the letter with or without
one. -/
def ofArgument? (argument : String) : Option (Setting × Option String) :=
  match argument.toList with
  | '-' :: '-' :: text =>
      let name := '-' :: '-' :: text.takeWhile (· ≠ '=')
      let attached := match text.dropWhile (· ≠ '=') with
        | _ :: value => some (String.ofList value)
        | [] => none
      (all.find? fun setting => setting.long.toList = name).map (·, attached)
  | '-' :: letter :: text =>
      let attached := match text with
        | [] => none
        | '=' :: value => some (String.ofList value)
        | value => some (String.ofList value)
      (all.find? (·.letter? = some letter)).map (·, attached)
  | _ => none

def apply (setting : Setting) (value : String) (job : Job) : Option Job :=
  match setting with
  | .input => if job.input.isNone then some { job with input := some value } else none
  | .output => if job.output.isNone then some { job with output := some value } else none
  | .indent =>
      if job.indent.isNone ∧ job.task.takesIndent then
        match Text.unsigned? value.toList with
        | some spaces =>
            if spaces < UInt64.size then some { job with indent := some spaces } else none
        | none => none
      else none

end Setting

/-- Whether an argument can be the value of the option before it. A dash begins
another option, unless it stands alone. -/
def isValue (argument : String) : Bool :=
  match argument.toList with
  | '-' :: _ :: _ => false
  | _ => true

/-- Whether an argument is a flag without a value. Its letter is one whatever is attached. -/
def isFlag (name : String) (letter : Char) (argument : String) : Bool :=
  argument = name || argument.toList.take 2 = ['-', letter]

def asksVersion : String → Bool := isFlag "--version" 'V'

def asksHelp : String → Bool := isFlag "--help" 'h'

/-! ## The whole line -/

def options (job : Job) : List String → Option Request
  | [] => some (.job job)
  | argument :: rest =>
      if argument = "--" then if rest = [] then some (.job job) else none
      else if argument = "--verbose" then
        if job.verbose then none else options { job with verbose := true } rest
      else if argument = "--shell" then
        if job.shell ∨ job.task ≠ .command then none
        else options { job with shell := true } rest
      else if asksHelp argument then some (.help (.task job.task))
      else
        match Setting.ofArgument? argument with
        | none => none
        | some (setting, some value) => do options (← setting.apply value job) rest
        | some (setting, none) =>
            match rest with
            | [] => none
            | value :: rest =>
                if isValue value then do options (← setting.apply value job) rest else none

def Request.withVerbose (verbose : Bool) : Request → Request
  | .job asked => .job { asked with verbose := verbose || asked.verbose }
  | other => other

def request? (verbose : Bool) : List String → Option Request
  | [] => none
  | argument :: rest =>
      if argument = "--verbose" then if verbose then none else request? true rest
      else if asksVersion argument then some .version
      else if asksHelp argument then some (.help .program)
      else if argument = "help" then (Topic.ofNames? rest).map .help
      else do
        let task ← Task.ofName? argument
        let request ← options (.ofTask task) rest
        return request.withVerbose verbose

end DocShell.CommandLine
