import DocShell.Proofs.Value.Normal

namespace DocShell.Value

/-! # The shape of a value

How a value nests, with its keys and its strings, and with the places where it holds a
regular expression. All that sets other scalars apart is left out. -/

mutual

def shape : Value → Value
  | .string text => .string text
  | .regex _ => .regex ⟨"", ""⟩
  | .array items => .array (shapeItems items)
  | .document fields => .document (shapeFields fields)
  | _ => .null

def shapeItems : List Value → List Value
  | [] => []
  | item :: rest => shape item :: shapeItems rest

def shapeFields : List (String × Value) → List (String × Value)
  | [] => []
  | (name, value) :: rest => (name, shape value) :: shapeFields rest

end

theorem shape_orNull (value : Value) : value.orNull.shape = value.shape := by
  cases value <;> rfl

theorem shape_normalNumber (number : Double) : (normalNumber number).shape = .null := by
  cases number <;> rfl

theorem shapeItems_normalItems {items : List Value}
    (each : ∀ item ∈ items, item.normal.shape = item.shape) :
    shapeItems (normalItems items) = shapeItems items := by
  induction items with
  | nil => rfl
  | cons item rest induction =>
      have first := each item List.mem_cons_self
      have later := induction fun other member => each other (List.mem_cons_of_mem _ member)
      rw [normalItems, shapeItems, shapeItems, shape_orNull, first, later]

theorem shapeFields_normalFields {fields : List (String × Value)}
    (present : ∀ field ∈ fields, field.2.isAbsent = false)
    (each : ∀ field ∈ fields, field.2.normal.shape = field.2.shape) :
    shapeFields (normalFields fields) = shapeFields fields := by
  induction fields with
  | nil => rfl
  | cons field rest induction =>
      rcases field with ⟨name, value⟩
      have kept : ¬value.isAbsent = true := Bool.eq_false_iff.mp (present _ List.mem_cons_self)
      have first := each (name, value) List.mem_cons_self
      have later := induction (fun other member => present other (List.mem_cons_of_mem _ member))
        fun other member => each other (List.mem_cons_of_mem _ member)
      rw [normalFields, if_neg kept, shapeFields, shapeFields, first, later]

/-- Writing and reading a value without absent parts keeps its shape. -/
theorem shape_normal {value : Value} (present : value.Present) :
    value.normal.shape = value.shape := by
  induction value using Value.induction with
  | scalar value scalar =>
      cases value with
      | number number => exact shape_normalNumber number
      | double number => exact shape_normalNumber number
      | array items => cases scalar
      | document fields => cases scalar
      | _ => rfl
  | array items induction =>
      have inside := (everywhere_array.mp present).2
      rw [normal, shape, shape,
        shapeItems_normalItems fun item member => induction item member (inside item member)]
  | document fields induction =>
      have inside := (everywhere_document.mp present).2
      rw [normal, shape, shape, shapeFields_normalFields
        (fun field member => (inside field member).here)
        fun field member => induction field member (inside field member)]

end DocShell.Value
