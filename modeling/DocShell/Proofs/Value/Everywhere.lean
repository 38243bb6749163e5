import DocShell.Value.Basic

namespace DocShell.Value

/-! # Properties of all parts of a value

A value nests through the items of arrays and the fields of documents. Induction
over it goes through both, and a property of single values is carried over to all
values inside. -/

def isContainer : Value → Bool
  | .array _ => true
  | .document _ => true
  | _ => false

theorem eq_absent {value : Value} (absent : value.isAbsent = true) : value = .absent := by
  cases value with
  | absent => rfl
  | _ => cases absent

theorem induction {motive : Value → Prop}
    (scalar : ∀ value, isContainer value = false → motive value)
    (array : ∀ items, (∀ item ∈ items, motive item) → motive (.array items))
    (document : ∀ fields, (∀ field ∈ fields, motive field.2) → motive (.document fields))
    (value : Value) : motive value := by
  refine @Value.rec motive (fun items => ∀ item ∈ items, motive item)
    (fun fields => ∀ field ∈ fields, motive field.2) (fun field => motive field.2)
    (scalar _ rfl) (scalar _ rfl) (fun _ => scalar _ rfl) (fun _ => scalar _ rfl)
    (fun _ => scalar _ rfl) (fun _ => scalar _ rfl) (fun _ => scalar _ rfl) (fun _ => scalar _ rfl)
    (fun _ => scalar _ rfl) (fun _ => scalar _ rfl) (fun _ => scalar _ rfl) (fun _ => scalar _ rfl)
    (fun _ _ => scalar _ rfl) (fun _ => scalar _ rfl) (fun items => array items)
    (fun fields => document fields) ?_ ?_ ?_ ?_ (fun _ _ => id) value
  · intro item member
    cases member
  · intro head rest first later item member
    rcases List.mem_cons.mp member with rfl | inner
    · exact first
    · exact later item inner
  · intro field member
    cases member
  · intro head rest first later field member
    rcases List.mem_cons.mp member with rfl | inner
    · exact first
    · exact later field inner

mutual

def Everywhere (holds : Value → Prop) : Value → Prop
  | .array items => holds (.array items) ∧ EverywhereItems holds items
  | .document fields => holds (.document fields) ∧ EverywhereFields holds fields
  | value => holds value

def EverywhereItems (holds : Value → Prop) : List Value → Prop
  | [] => True
  | item :: rest => Everywhere holds item ∧ EverywhereItems holds rest

def EverywhereFields (holds : Value → Prop) : List (String × Value) → Prop
  | [] => True
  | (_, value) :: rest => Everywhere holds value ∧ EverywhereFields holds rest

end

variable {holds : Value → Prop}

theorem everywhereItems_iff {items : List Value} :
    EverywhereItems holds items ↔ ∀ item ∈ items, Everywhere holds item := by
  induction items with
  | nil => simp [EverywhereItems]
  | cons item rest induction => simp [EverywhereItems, induction]

theorem everywhereFields_iff {fields : List (String × Value)} :
    EverywhereFields holds fields ↔ ∀ field ∈ fields, Everywhere holds field.2 := by
  induction fields with
  | nil => simp [EverywhereFields]
  | cons field rest induction => simp [EverywhereFields, induction]

theorem everywhere_array {items : List Value} :
    Everywhere holds (.array items) ↔
      holds (.array items) ∧ ∀ item ∈ items, Everywhere holds item := by
  rw [Everywhere, everywhereItems_iff]

theorem everywhere_document {fields : List (String × Value)} :
    Everywhere holds (.document fields) ↔
      holds (.document fields) ∧ ∀ field ∈ fields, Everywhere holds field.2 := by
  rw [Everywhere, everywhereFields_iff]

theorem everywhere_scalar {value : Value} (scalar : isContainer value = false) :
    Everywhere holds value ↔ holds value := by
  cases value with
  | array items => cases scalar
  | document fields => cases scalar
  | _ => rfl

theorem Everywhere.here {value : Value} (all : Everywhere holds value) : holds value := by
  cases value with
  | array items => exact (everywhere_array.mp all).1
  | document fields => exact (everywhere_document.mp all).1
  | _ => exact all

/-- Two properties that hold everywhere, put together. -/
theorem Everywhere.combine {other both : Value → Prop} {value : Value}
    (all : Everywhere holds value) (others : Everywhere other value)
    (implies : ∀ part, holds part → other part → both part) : Everywhere both value := by
  induction value using Value.induction with
  | scalar value scalar =>
      rw [everywhere_scalar scalar] at all others ⊢
      exact implies value all others
  | array items induction =>
      rw [everywhere_array] at all others ⊢
      exact ⟨implies _ all.1 others.1, fun item member =>
        induction item member (all.2 item member) (others.2 item member)⟩
  | document fields induction =>
      rw [everywhere_document] at all others ⊢
      exact ⟨implies _ all.1 others.1, fun field member =>
        induction field member (all.2 field member) (others.2 field member)⟩

theorem Everywhere.imp {other : Value → Prop} {value : Value} (all : Everywhere holds value)
    (implies : ∀ part, holds part → other part) : Everywhere other value :=
  all.combine all fun part here _ => implies part here

end DocShell.Value
