import DocShell.Value.Basic

namespace DocShell.Value

/-! # Plain data

What remains of a value once it is treated as data without a schema: omitted
fields disappear, and array slots and plain numbers that hold no data become
null. An omitted value at the root stays. -/

def orNull : Value → Value
  | .absent => .null
  | value => value

mutual

def plain : Value → Value
  | .number value => if value.isFinite then .number value else .null
  | .array items => .array (plainItems items)
  | .document fields => .document (plainFields fields)
  | value => value

def plainItems : List Value → List Value
  | [] => []
  | item :: rest => (plain item).orNull :: plainItems rest

def plainFields : List (String × Value) → List (String × Value)
  | [] => []
  | (name, value) :: rest =>
      match plain value with
      | .absent => plainFields rest
      | value => (name, value) :: plainFields rest

end

end DocShell.Value
