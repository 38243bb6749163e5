import DocShell.Fields
import DocShell.Number.Double

namespace DocShell

/-! # JSON values

A number is an integer of at most 64 bits, signed or not, or else a double.
Objects keep the order of their members. -/

inductive Json
  | null
  | bool (value : Bool)
  | integer (value : Int)
  | float (value : Double)
  | string (text : String)
  | array (items : List Json)
  | object (members : List (String × Json))

namespace Json

def string? : Json → Option String
  | .string text => some text
  | _ => none

def member? (name : String) : Json → Option Json
  | .object members => Fields.get? name members
  | _ => none

def natBelow? (bound : Nat) : Json → Option Nat
  | .integer (.ofNat value) => if value < bound then some value else none
  | _ => none

def wrapped (name : String) (inner : Json) : Json := .object [(name, inner)]

end Json

end DocShell
