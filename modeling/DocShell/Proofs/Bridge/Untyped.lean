import DocShell.Proofs.Bridge.Import
import DocShell.Proofs.Json.Parts

namespace DocShell

/-! # JSON without typed values

The value of JSON in which objects are documents, whatever their members are called, and
integers are rounded to doubles. JSON that is read as a value without meeting a typed one
is read as this. -/

namespace Json

mutual

def untyped : Json → Value
  | .null => .null
  | .bool value => .bool value
  | .integer whole => .number (Double.ofInt whole)
  | .float inexact => .number inexact
  | .string text => .string text
  | .array items => .array (untypedItems items)
  | .object members => .document (untypedMembers members)

def untypedItems : List Json → List Value
  | [] => []
  | item :: rest => untyped item :: untypedItems rest

def untypedMembers : List (String × Json) → List (String × Value)
  | [] => []
  | (name, json) :: rest => (name, untyped json) :: untypedMembers rest

end

theorem untypedItems_eq_map (items : List Json) : untypedItems items = items.map untyped := by
  induction items with
  | nil => rfl
  | cons item rest induction => rw [untypedItems, induction, List.map_cons]

theorem untypedMembers_eq_map (members : List (String × Json)) :
    untypedMembers members = members.map fun member => (member.1, member.2.untyped) := by
  induction members with
  | nil => rfl
  | cons member rest induction => rw [untypedMembers, induction, List.map_cons]

theorem names_untypedMembers (members : List (String × Json)) :
    Fields.names (untypedMembers members) = Fields.names members := by
  rw [untypedMembers_eq_map, Fields.names, Fields.names, List.map_map]
  rfl

theorem isAbsent_untyped (json : Json) : json.untyped.isAbsent = false := by
  cases json <;> rfl

def Unwrapped (json : Json) : Prop :=
  Objects (fun _ => True) (fun members => Value.ofWrapper? members = .ok none) json

end Json

namespace Value

open Json

theorem ofItems_eq_untyped {items : List Json} {values : List Value}
    (each : ∀ item ∈ items, ∀ value, ofJson item = .ok value → value = item.untyped)
    (read : ofItems items = .ok values) : values = untypedItems items := by
  induction items generalizing values with
  | nil =>
      cases read
      rfl
  | cons item rest induction =>
      rcases bind_eq_ok.mp read with ⟨first, found, more⟩
      rcases bind_pure_eq_ok.mp more with ⟨others, later, rfl⟩
      rw [untypedItems, each item List.mem_cons_self first found,
        induction (fun other member => each other (List.mem_cons_of_mem _ member)) later]

theorem ofMembers_eq_untyped {members : List (String × Json)} {fields : List (String × Value)}
    (each : ∀ member ∈ members, ∀ value, ofJson member.2 = .ok value → value = member.2.untyped)
    (read : ofMembers members = .ok fields) : fields = untypedMembers members := by
  induction members generalizing fields with
  | nil =>
      cases read
      rfl
  | cons member rest induction =>
      rcases bind_eq_ok.mp read with ⟨first, found, more⟩
      rcases bind_pure_eq_ok.mp more with ⟨others, later, rfl⟩
      rw [untypedMembers, each member List.mem_cons_self first found,
        induction (fun other inside => each other (List.mem_cons_of_mem _ inside)) later]

theorem ofJson_eq_untyped {json : Json} (distinct : json.Distinct) (unwrapped : json.Unwrapped)
    {value : Value} (read : ofJson json = .ok value) : value = json.untyped := by
  induction json using Json.induction generalizing value with
  | scalar json scalar =>
      cases json with
      | integer whole =>
          rw [ofJson, ofInteger] at read
          split at read
          · exact (Except.ok.inj read).symm
          · cases read
      | array items => cases scalar
      | object members => cases scalar
      | _ => exact (Except.ok.inj read).symm
  | array items induction =>
      have distinct := objects_array.mp distinct
      have unwrapped := objects_array.mp unwrapped
      rcases bind_pure_eq_ok.mp read with ⟨values, found, rfl⟩
      rw [Json.untyped, ofItems_eq_untyped (fun item member value =>
        induction item member (distinct item member) (unwrapped item member)) found]
  | object members induction =>
      rcases objects_object.mp distinct with ⟨nodup, distinct⟩
      rcases objects_object.mp unwrapped with ⟨here, unwrapped⟩
      rw [ofJson, here] at read
      rcases bind_pure_eq_ok.mp read with ⟨pairs, found, rfl⟩
      have fields := ofMembers_eq_untyped (fun member inside value =>
        induction member inside (distinct trivial member inside) (unwrapped trivial member inside))
        found
      rw [Json.untyped, fields,
        Fields.ofPairs_of_nodup ((names_untypedMembers members).symm ▸ nodup)]

end Value

end DocShell
