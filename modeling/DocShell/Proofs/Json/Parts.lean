import DocShell.Proofs.Json.Depth

namespace DocShell.Json

/-! # Parts of JSON

A part is reached through the items of arrays and through the members of those objects
that are open to it. In JSON out of a text no object that is reached repeats a name. -/

def isContainer : Json → Bool
  | .array _ => true
  | .object _ => true
  | _ => false

theorem induction {motive : Json → Prop}
    (scalar : ∀ json : Json, json.isContainer = false → motive json)
    (array : ∀ items, (∀ item ∈ items, motive item) → motive (.array items))
    (object : ∀ members, (∀ member ∈ members, motive member.2) → motive (.object members))
    (json : Json) : motive json := by
  refine @Json.rec motive (fun items => ∀ item ∈ items, motive item)
    (fun members => ∀ member ∈ members, motive member.2) (fun member => motive member.2)
    (scalar _ rfl) (fun _ => scalar _ rfl) (fun _ => scalar _ rfl) (fun _ => scalar _ rfl)
    (fun _ => scalar _ rfl) array object ?_ ?_ ?_ ?_ (fun _ _ => id) json
  · intro item member
    cases member
  · intro head rest first later item member
    rcases List.mem_cons.mp member with rfl | inner
    · exact first
    · exact later item inner
  · intro field member
    cases member
  · intro head rest first later field member
    rcases List.mem_cons.mp member with rfl | inner
    · exact first
    · exact later field inner

/-- A part that is reached from the outside in, through open objects. -/
inductive Within (isOpen : List (String × Json) → Prop) (part : Json) : Json → Prop
  | here : Within isOpen part part
  | item {items : List Json} {item : Json} (belongs : item ∈ items)
      (inner : Within isOpen part item) : Within isOpen part (.array items)
  | member {members : List (String × Json)} {member : String × Json} (opened : isOpen members)
      (belongs : member ∈ members) (inner : Within isOpen part member.2) :
      Within isOpen part (.object members)

def Objects (isOpen holds : List (String × Json) → Prop) (json : Json) : Prop :=
  ∀ members, Within isOpen (.object members) json → holds members

variable {isOpen holds : List (String × Json) → Prop}

theorem objects_of_leaf {json : Json} (leaf : json.isContainer = false) :
    Objects isOpen holds json := by
  intro members within
  cases within with
  | here => cases leaf
  | item _ _ => cases leaf
  | member _ _ _ => cases leaf

theorem objects_array {items : List Json} :
    Objects isOpen holds (.array items) ↔ ∀ item ∈ items, Objects isOpen holds item := by
  constructor
  · intro all item belongs members within
    exact all members (.item belongs within)
  · rintro all members (_ | ⟨belongs, inner⟩)
    exact all _ belongs members inner

theorem objects_object {members : List (String × Json)} :
    Objects isOpen holds (.object members) ↔
      holds members ∧ (isOpen members → ∀ member ∈ members, Objects isOpen holds member.2) := by
  constructor
  · intro all
    exact ⟨all members .here, fun opened member belongs others within =>
      all others (.member opened belongs within)⟩
  · rintro ⟨here, inside⟩ others within
    cases within with
    | here => exact here
    | member opened belongs inner => exact inside opened _ belongs others inner

/-! ## Different names -/

def Distinct (json : Json) : Prop :=
  Objects (fun _ => True) (fun members => (Fields.names members).Nodup) json

theorem isContainer_of_depth {json : Json} (flat : json.depth = 0) : json.isContainer = false := by
  cases json with
  | array items =>
      rw [depth] at flat
      omega
  | object members =>
      rw [depth] at flat
      omega
  | _ => rfl

/-- JSON out of a text has different names everywhere. -/
theorem distinct_of_parse? {text : String} {json : Json} (read : parse? text = some json) :
    json.Distinct := by
  refine @holds_of_parse? (fun _ json => json.Distinct) ?flat ?array ?object _ _ read
  case flat =>
    intro _ json flat
    exact objects_of_leaf (isContainer_of_depth flat)
  case array =>
    intro _ items each
    exact objects_array.mpr each
  case object =>
    intro _ members different each
    exact objects_object.mpr ⟨different, fun _ => each⟩

end DocShell.Json
