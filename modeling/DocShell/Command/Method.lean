import DocShell.Command.Operation

namespace DocShell

/-! # Methods of a cursor

Modifiers change one field of a search each, in place if it is there already.
The two other methods end the chain. -/

inductive Modifier
  | skip
  | limit
  | sort
  | hint
  | project
deriving DecidableEq, Repr

inductive Terminal
  | explain
  | toArray
deriving DecidableEq, Repr

inductive Method
  | modifier (modifier : Modifier)
  | terminal (terminal : Terminal)
deriving DecidableEq, Repr

namespace Modifier

def name : Modifier → String
  | .skip => "skip"
  | .limit => "limit"
  | .sort => "sort"
  | .hint => "hint"
  | .project => "project"

def field : Modifier → String
  | .project => "projection"
  | modifier => modifier.name

def value (modifier : Modifier) (argument : Argument) : Except Failure Value :=
  match modifier with
  | .skip | .limit =>
      match argument.value with
      | .number _ | .int _ | .long _ | .double _ => .ok argument.value
      | _ => .error (argument.unexpected modifier.name "a number")
  | .sort | .project => do
      return .document (← argument.document modifier.name "specification")
  | .hint =>
      match argument.value with
      | .document _ | .string _ => .ok argument.value
      | _ => .error (argument.unexpected modifier.name "an index document or name")

end Modifier

namespace Terminal

def name : Terminal → String
  | .explain => "explain"
  | .toArray => "toArray"

def verbosities : List String := ["queryPlanner", "executionStats", "allPlansExecution"]

def verbosity (argument : Argument) : Except Failure (Fields Value) :=
  let refusal : Failure := .misuse (.badVerbosity argument.value) argument.position
  match argument.value with
  | .absent => .ok []
  | .string text =>
      if text ∈ verbosities then .ok [("verbosity", .string text)] else .error refusal
  | _ => .error refusal

end Terminal

namespace Method

def all : List Method :=
  [.modifier .skip, .modifier .limit, .modifier .sort, .modifier .hint, .modifier .project,
    .terminal .explain, .terminal .toArray]

def name : Method → String
  | .modifier change => change.name
  | .terminal last => last.name

def ofName? (name : String) : Option Method := all.find? (·.name = name)

end Method

end DocShell
