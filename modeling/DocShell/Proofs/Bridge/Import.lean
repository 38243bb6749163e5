import DocShell.Bridge.Import
import DocShell.Proofs.Failure.Bind
import DocShell.Proofs.Json.Depth
import DocShell.Proofs.Value.Normal

namespace DocShell.Value

/-! # What JSON is read as

Values out of JSON are sound, hold nothing that is absent, and nest at most two levels
for every level of JSON, with two more for the innermost number. -/

structure Leaf (levels : Nat) (value : Value) : Prop where
  scalar : value.isContainer = false
  present : value.isAbsent = false
  sound : value.SoundHere
  need : value.need ≤ levels

theorem Leaf.mono {levels more : Nat} {value : Value} (leaf : Leaf levels value)
    (fits : levels ≤ more) : Leaf more value :=
  ⟨leaf.scalar, leaf.present, leaf.sound, Nat.le_trans leaf.need fits⟩

/-! ## Wrappers -/

def typeNames : List String :=
  ["$oid", "$date", "$numberInt", "$numberLong", "$numberDouble", "$numberDecimal",
    "$regularExpression", "$timestamp", "$binary"]

/-- The kinds of values that JSON has no form of its own for. -/
def isTyped : Value → Bool
  | .objectId _ | .int _ | .long _ | .decimal _ | .double _ | .date _ | .regex _
  | .timestamp _ _ | .binary _ => true
  | _ => false

structure Typed (value : Value) : Prop extends Leaf 4 value where
  typed : value.isTyped = true

theorem instantOf_le {json : Json} {instant : Int} (read : instantOf json = .ok instant) :
    instant.natAbs ≤ Calendar.instantLimit := by
  rcases bind_eq_ok.mp read with ⟨spelled, _, kept⟩
  split at kept
  · cases kept
    assumption
  · cases kept

theorem typed_of_binaryOf {json : Json} {value : Value} (read : binaryOf json = .ok value) :
    Typed value := by
  rcases bind_eq_ok.mp read with ⟨payload, _, rest⟩
  rcases bind_eq_ok.mp rest with ⟨subtype, _, rest⟩
  rcases bind_eq_ok.mp rest with ⟨byte, _, made⟩
  cases data : Binary.ofBase64? byte payload with
  | none =>
      rw [data] at made
      cases made
  | some binary =>
      rw [data] at made
      cases made
      exact ⟨⟨rfl, rfl, trivial, callNeed_one_le⟩, rfl⟩

theorem typed_of_patternOf {json : Json} {value : Value} (read : patternOf json = .ok value) :
    Typed value := by
  rcases bind_eq_ok.mp read with ⟨source, _, rest⟩
  rcases bind_eq_ok.mp rest with ⟨options, _, made⟩
  split at made
  · rename_i pattern accepted
    cases made
    exact ⟨⟨rfl, rfl, (Pattern.sound_of_new? accepted).1, (by decide : 1 ≤ 4)⟩, rfl⟩
  · cases made

/-- A wrapper around what a step finds. -/
theorem typed_of_bind {ι : Type} {first : Import ι} {wrap : ι → Value} {result : Option Value}
    (read : (first >>= fun item => pure (some (wrap item))) = .ok result)
    (typed : ∀ item, first = .ok item → Typed (wrap item)) :
    ∃ value, result = some value ∧ Typed value := by
  rcases bind_pure_eq_ok.mp read with ⟨item, found, equal⟩
  exact ⟨wrap item, equal.symm, typed item found⟩

/-- A member is read as a typed value, or else its name marks none. -/
theorem ofSingle?_cases {name : String} {inner : Json} {result : Option Value}
    (read : ofSingle? name inner = .ok result) :
    (∃ value, result = some value ∧ Typed value) ∨ name ∉ typeNames ∧ result = none := by
  simp only [ofSingle?] at read
  split at read
  · exact .inl (typed_of_bind read fun _ _ => ⟨⟨rfl, rfl, trivial, callNeed_one_le⟩, rfl⟩)
  split at read
  · exact .inl (typed_of_bind read fun instant within =>
      ⟨⟨rfl, rfl, instantOf_le within, dateNeed_le instant⟩, rfl⟩)
  split at read
  · exact .inl (typed_of_bind read fun _ _ =>
      ⟨⟨rfl, rfl, trivial, Nat.le_trans (signNeed_le _) (by decide)⟩, rfl⟩)
  split at read
  · rcases bind_eq_ok.mp read with ⟨text, _, rest⟩
    exact .inl (typed_of_bind rest fun _ _ => ⟨⟨rfl, rfl, trivial, callNeed_one_le⟩, rfl⟩)
  split at read
  · rcases bind_eq_ok.mp read with ⟨text, _, rest⟩
    exact .inl (typed_of_bind rest fun number _ =>
      ⟨⟨rfl, rfl, trivial, Nat.le_trans (numberNeed_le number) (by decide)⟩, rfl⟩)
  split at read
  · rcases bind_eq_ok.mp read with ⟨text, _, rest⟩
    exact .inl (typed_of_bind rest fun _ _ => ⟨⟨rfl, rfl, trivial, callNeed_one_le⟩, rfl⟩)
  split at read
  · exact .inl (typed_of_bind read fun _ => typed_of_patternOf)
  split at read
  · rcases bind_eq_ok.mp read with ⟨seconds, _, rest⟩
    exact .inl (typed_of_bind rest fun _ _ => ⟨⟨rfl, rfl, trivial, callNeed_one_le⟩, rfl⟩)
  split at read
  · exact .inl (typed_of_bind read fun _ => typed_of_binaryOf)
  · cases read
    exact .inr ⟨by simp_all [typeNames], rfl⟩

theorem typed_of_ofSingle? {name : String} {inner : Json} {value : Value}
    (read : ofSingle? name inner = .ok (some value)) : Typed value := by
  rcases ofSingle?_cases read with ⟨other, equal, typed⟩ | ⟨_, none⟩
  · cases equal
    exact typed
  · cases none

theorem typed_of_ofWrapper? {members : List (String × Json)} {value : Value}
    (read : ofWrapper? members = .ok (some value)) : Typed value := by
  unfold ofWrapper? at read
  split at read
  · split at read
    · cases read
      exact ⟨⟨rfl, rfl, trivial, callNeed_one_le⟩, rfl⟩
    · exact typed_of_ofSingle? read
  · split at read
    · rcases bind_pure_eq_ok.mp read with ⟨data, found, made⟩
      cases made
      exact typed_of_binaryOf found
    · cases read
  · cases read

/-! ## All of JSON -/

theorem mem_ofItems {items : List Json} {values : List Value}
    (read : ofItems items = .ok values) :
    ∀ value ∈ values, ∃ item ∈ items, ofJson item = .ok value := by
  induction items generalizing values with
  | nil =>
      cases read
      intro value member
      cases member
  | cons item rest induction =>
      rcases bind_eq_ok.mp read with ⟨first, found, more⟩
      rcases bind_pure_eq_ok.mp more with ⟨others, later, rfl⟩
      intro value member
      rcases List.mem_cons.mp member with rfl | inner
      · exact ⟨item, List.mem_cons_self, found⟩
      · rcases induction later value inner with ⟨source, inside, equal⟩
        exact ⟨source, List.mem_cons_of_mem _ inside, equal⟩

theorem mem_ofMembers {members : List (String × Json)} {fields : List (String × Value)}
    (read : ofMembers members = .ok fields) :
    ∀ field ∈ fields, ∃ member ∈ members, ofJson member.2 = .ok field.2 := by
  induction members generalizing fields with
  | nil =>
      cases read
      intro field member
      cases member
  | cons member rest induction =>
      rcases member with ⟨name, json⟩
      rcases bind_eq_ok.mp read with ⟨first, found, more⟩
      rcases bind_pure_eq_ok.mp more with ⟨others, later, rfl⟩
      intro field belongs
      rcases List.mem_cons.mp belongs with rfl | inner
      · exact ⟨(name, json), List.mem_cons_self, found⟩
      · rcases induction later field inner with ⟨source, inside, equal⟩
        exact ⟨source, List.mem_cons_of_mem _ inside, equal⟩

theorem names_of_ofMembers {members : List (String × Json)} {fields : List (String × Value)}
    (read : ofMembers members = .ok fields) : Fields.names fields = Fields.names members := by
  induction members generalizing fields with
  | nil =>
      cases read
      rfl
  | cons member rest induction =>
      rcases bind_eq_ok.mp read with ⟨first, _, more⟩
      rcases bind_pure_eq_ok.mp more with ⟨others, later, rfl⟩
      exact congrArg (List.cons member.1) (induction later)

theorem leaf_of_number (number : Double) (depth : Nat) : Leaf (2 * depth + 2) (.number number) :=
  ⟨rfl, rfl, trivial, Nat.le_trans (numberNeed_le number) (Nat.le_add_left 2 _)⟩

/-- What JSON may be read as: a leaf, an array of what its items are read as, or a
document of what its members are read as. -/
theorem ofJson_cases {json : Json} {value : Value} (read : ofJson json = .ok value) :
    Leaf (2 * json.depth + 2) value ∨
    (∃ items values, json = .array items ∧ value = .array values ∧
      ∀ value ∈ values, ∃ item ∈ items, ofJson item = .ok value) ∨
    (∃ members fields, json = .object members ∧ value = .document fields ∧
      (Fields.names fields).Nodup ∧
      ∀ field ∈ fields, ∃ member ∈ members, ofJson member.2 = .ok field.2) := by
  cases json with
  | null =>
      cases read
      exact .inl ⟨rfl, rfl, trivial, Nat.le_add_left 1 _⟩
  | bool value =>
      cases read
      exact .inl ⟨rfl, rfl, trivial, Nat.le_add_left 1 _⟩
  | integer whole =>
      rw [ofJson, ofInteger] at read
      split at read
      · cases read
        exact .inl (leaf_of_number _ _)
      · cases read
  | float inexact =>
      cases read
      exact .inl (leaf_of_number _ _)
  | string text =>
      cases read
      exact .inl ⟨rfl, rfl, trivial, Nat.le_add_left 1 _⟩
  | array items =>
      rw [ofJson] at read
      rcases bind_pure_eq_ok.mp read with ⟨values, found, rfl⟩
      exact .inr (.inl ⟨items, values, rfl, rfl, mem_ofItems found⟩)
  | object members =>
      rw [ofJson] at read
      rcases bind_eq_ok.mp read with ⟨wrapped, found, rest⟩
      cases wrapped with
      | some inner =>
          cases rest
          have levels : 4 ≤ 2 * (Json.object members).depth + 2 := by
            rw [Json.depth]
            omega
          exact .inl ((typed_of_ofWrapper? found).toLeaf.mono levels)
      | none =>
          rcases bind_pure_eq_ok.mp rest with ⟨pairs, inside, rfl⟩
          exact .inr (.inr ⟨members, _, rfl, rfl, Fields.nodup_ofPairs pairs,
            fun field member => mem_ofMembers inside field (Fields.mem_of_mem_ofPairs member)⟩)

theorem leaf_of_ofJson {json : Json} {value : Value} (read : ofJson json = .ok value)
    (scalar : value.isContainer = false) : Leaf (2 * json.depth + 2) value := by
  rcases ofJson_cases read with
    leaf | ⟨items, values, rfl, rfl, _⟩ | ⟨members, fields, rfl, rfl, _⟩
  · exact leaf
  · cases scalar
  · cases scalar

theorem items_of_ofJson {json : Json} {values : List Value}
    (read : ofJson json = .ok (.array values)) :
    ∃ items, json = .array items ∧ ∀ value ∈ values, ∃ item ∈ items, ofJson item = .ok value := by
  rcases ofJson_cases read with
    leaf | ⟨items, _, rfl, equal, inside⟩ | ⟨members, fields, rfl, equal, _⟩
  · cases leaf.scalar
  · cases equal
    exact ⟨items, rfl, inside⟩
  · cases equal

theorem members_of_ofJson {json : Json} {fields : List (String × Value)}
    (read : ofJson json = .ok (.document fields)) :
    ∃ members, json = .object members ∧ (Fields.names fields).Nodup ∧
      ∀ field ∈ fields, ∃ member ∈ members, ofJson member.2 = .ok field.2 := by
  rcases ofJson_cases read with
    leaf | ⟨items, values, rfl, equal, _⟩ | ⟨members, _, rfl, equal, nodup, inside⟩
  · cases leaf.scalar
  · cases equal
  · cases equal
    exact ⟨members, rfl, nodup, inside⟩

/-! ## Values out of JSON -/

/-- Two levels for every container, and two for what is innermost. -/
theorem need_le_of_ofJson {json : Json} {value : Value} (read : ofJson json = .ok value) :
    value.need ≤ 2 * json.depth + 2 := by
  induction value using Value.induction generalizing json with
  | scalar value scalar => exact (leaf_of_ofJson read scalar).need
  | array values induction =>
      rcases items_of_ofJson read with ⟨items, rfl, inside⟩
      have each : ∀ value ∈ values, 1 ≤ 2 * Json.depthItems items + 2 ∧
          value.need ≤ 2 * Json.depthItems items + 2 := by
        intro value member
        rcases inside value member with ⟨item, belongs, found⟩
        have levels := induction value member found
        have within := Json.depthItems_le.mp (Nat.le_refl _) item belongs
        omega
      have all := needItems_le each
      rw [need, Json.depth]
      omega
  | document fields induction =>
      rcases members_of_ofJson read with ⟨members, rfl, _, inside⟩
      have each : ∀ field ∈ fields, field.2.need ≤ 2 * Json.depthMembers members + 2 := by
        intro field member
        rcases inside field member with ⟨source, belongs, found⟩
        have levels := induction field member found
        have within := Json.depthMembers_le.mp (Nat.le_refl _) source belongs
        omega
      have all := needFields_le each
      rw [need, Json.depth]
      omega

theorem everywhere_of_ofJson {holds : Value → Prop}
    (leaf : ∀ levels value, Leaf levels value → holds value)
    (array : ∀ items, holds (.array items))
    (document : ∀ fields, (Fields.names fields).Nodup → holds (.document fields))
    {json : Json} {value : Value} (read : ofJson json = .ok value) : value.Everywhere holds := by
  induction value using Value.induction generalizing json with
  | scalar value scalar =>
      exact (everywhere_scalar scalar).mpr (leaf _ _ (leaf_of_ofJson read scalar))
  | array values induction =>
      rcases items_of_ofJson read with ⟨items, rfl, inside⟩
      refine everywhere_array.mpr ⟨array values, fun value member => ?_⟩
      rcases inside value member with ⟨item, _, found⟩
      exact induction value member found
  | document fields induction =>
      rcases members_of_ofJson read with ⟨members, rfl, nodup, inside⟩
      refine everywhere_document.mpr ⟨document fields nodup, fun field member => ?_⟩
      rcases inside field member with ⟨source, _, found⟩
      exact induction field member found

theorem sound_of_ofJson {json : Json} {value : Value} (read : ofJson json = .ok value) :
    value.Sound :=
  everywhere_of_ofJson (fun _ _ leaf => leaf.sound) (fun _ => trivial) (fun _ nodup => nodup) read

theorem present_of_ofJson {json : Json} {value : Value} (read : ofJson json = .ok value) :
    value.Present :=
  everywhere_of_ofJson (fun _ _ leaf => leaf.present) (fun _ => rfl) (fun _ _ => rfl) read

end DocShell.Value
