import DocShell.Calendar.Reading
import DocShell.Proofs.Scalar.Pattern
import DocShell.Proofs.Value.Everywhere
import DocShell.Value.Plain

namespace DocShell.Value

/-! # What reading back keeps

The value that the text of a value denotes, and how deeply that text nests. Both
are stated for values as their constructors make them, with patterns that can
stand between slashes. -/

/-- What the constructors of values see to, for one value without its parts. -/
def SoundHere : Value → Prop
  | .date instant => instant.natAbs ≤ Calendar.instantLimit
  | .regex pattern => pattern.Sound
  | .document fields => (Fields.names fields).Nodup
  | _ => True

/-- A value that is built by the constructors: instants in range, patterns with
their options in order, documents without a name twice. -/
def Sound (value : Value) : Prop := value.Everywhere SoundHere

def ClosedHere : Value → Prop
  | .regex pattern => Pattern.isClosed pattern.source = true
  | _ => True

def Closed (value : Value) : Prop := value.Everywhere ClosedHere

def Present (value : Value) : Prop := value.Everywhere fun part => part.isAbsent = false

/-! ## The value -/

/-- A double without the sign of zero, or null in place of one that is not finite. -/
def normalNumber : Double → Value
  | .finite negative magnitude => .number (.finite (negative && magnitude.units ≠ 0) magnitude)
  | _ => .null

mutual

/-- The value that remains of a value once it is written and read. Numbers of all
kinds become plain, patterns stay as they are written, absent fields are dropped
and absent items become null. -/
def normal : Value → Value
  | .number value => normalNumber value
  | .double value => normalNumber value
  | .int value => .number (Double.ofInt value.toInt)
  | .regex pattern => .regex ⟨String.ofList (writtenSource pattern.source), pattern.options⟩
  | .array items => .array (normalItems items)
  | .document fields => .document (normalFields fields)
  | value => value

def normalItems : List Value → List Value
  | [] => []
  | item :: rest => (normal item).orNull :: normalItems rest

def normalFields : List (String × Value) → List (String × Value)
  | [] => []
  | (name, value) :: rest =>
      if value.isAbsent then normalFields rest else (name, normal value) :: normalFields rest

end

/-! ## The depth -/

def signNeed (negative : Bool) : Nat := if negative then 2 else 1

def numberNeed : Double → Nat
  | .nan => 1
  | .infinity negative => signNeed negative
  | .finite negative magnitude => signNeed (negative && magnitude.units ≠ 0)

def callNeed (arguments : Nat) : Nat := 2 + arguments

def dateNeed (instant : Int) : Nat :=
  match Calendar.write? instant with
  | some _ => callNeed 1
  | none => callNeed (signNeed (instant < 0))

mutual

/-- The levels that the text of a value takes. A container takes two besides those
of its deepest part, and an absent item is written as a name. -/
def need : Value → Nat
  | .absent => 0
  | .number value => numberNeed value
  | .double value => numberNeed value
  | .int value => signNeed (value.toInt < 0)
  | .objectId _ => callNeed 1
  | .long _ => callNeed 1
  | .decimal _ => callNeed 1
  | .date instant => dateNeed instant
  | .timestamp _ _ => callNeed 1
  | .binary _ => callNeed 1
  | .array items => 2 + needItems items
  | .document fields => 2 + needFields fields
  | _ => 1

def needItems : List Value → Nat
  | [] => 0
  | item :: rest => max (max 1 (need item)) (needItems rest)

def needFields : List (String × Value) → Nat
  | [] => 0
  | (_, value) :: rest => max (need value) (needFields rest)

end

example : need (.array [.absent, .array [], .double (.infinity true)]) = 4 := by decide

/-! ### Bounds -/

theorem signNeed_le (negative : Bool) : signNeed negative ≤ 2 := by
  cases negative <;> decide

theorem numberNeed_le (number : Double) : numberNeed number ≤ 2 := by
  cases number with
  | finite negative magnitude => exact signNeed_le _
  | infinity negative => exact signNeed_le negative
  | nan => decide

theorem dateNeed_le (instant : Int) : dateNeed instant ≤ 4 := by
  rw [dateNeed]
  split
  · decide
  · exact Nat.add_le_add_left (signNeed_le _) 2

theorem callNeed_one_le : callNeed 1 ≤ 4 := by decide

theorem needItems_le {items : List Value} {bound : Nat}
    (each : ∀ item ∈ items, 1 ≤ bound ∧ item.need ≤ bound) : needItems items ≤ bound := by
  induction items with
  | nil => exact Nat.zero_le bound
  | cons item rest induction =>
      have first := each item List.mem_cons_self
      have later := induction fun other member => each other (List.mem_cons_of_mem _ member)
      exact Nat.max_le.mpr ⟨Nat.max_le.mpr first, later⟩

theorem needFields_le {fields : List (String × Value)} {bound : Nat}
    (each : ∀ field ∈ fields, field.2.need ≤ bound) : needFields fields ≤ bound := by
  induction fields with
  | nil => exact Nat.zero_le bound
  | cons field rest induction =>
      have first := each field List.mem_cons_self
      have later := induction fun other member => each other (List.mem_cons_of_mem _ member)
      exact Nat.max_le.mpr ⟨first, later⟩

theorem need_orNull_le (value : Value) : value.orNull.need ≤ max 1 value.need := by
  cases value with
  | absent => exact Nat.le_max_left 1 0
  | _ => exact Nat.le_max_right 1 _

theorem one_le_signNeed (negative : Bool) : 1 ≤ signNeed negative := by
  cases negative <;> decide

theorem one_le_numberNeed (number : Double) : 1 ≤ numberNeed number := by
  cases number with
  | finite negative magnitude => exact one_le_signNeed _
  | infinity negative => exact one_le_signNeed negative
  | nan => exact Nat.le_refl 1

theorem one_le_callNeed (arguments : Nat) : 1 ≤ callNeed arguments :=
  Nat.le_trans (by decide) (Nat.le_add_right 2 arguments)

theorem one_le_need {value : Value} (present : value.isAbsent = false) : 1 ≤ value.need := by
  cases value with
  | absent => cases present
  | number value => exact one_le_numberNeed value
  | double value => exact one_le_numberNeed value
  | int value => exact one_le_signNeed _
  | date instant =>
      rw [need, dateNeed]
      split <;> exact one_le_callNeed _
  | array items => exact one_le_callNeed _
  | document fields => exact one_le_callNeed _
  | objectId identifier => exact one_le_callNeed 1
  | long digits => exact one_le_callNeed 1
  | decimal digits => exact one_le_callNeed 1
  | timestamp seconds increment => exact one_le_callNeed 1
  | binary data => exact one_le_callNeed 1
  | _ => exact Nat.le_refl 1

end DocShell.Value
