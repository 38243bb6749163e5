import DocShell.Proofs.Bridge.Import

namespace DocShell

/-! # Reserved shapes

An object of JSON is a typed value if its only member has one of nine names, if its only
member is an identifier spelled byte by byte, or if it has binary data beside a type.
Every other object is a document. -/

namespace Json

def SpellsIdentifier : Json → Prop
  | .object members => members.length = 12 ∧ ∀ place < 12, ∃ byte < 256,
      Fields.get? (String.ofList (Text.ofNat place)) members = some (.integer (.ofNat byte))
  | _ => False

def Reserved (members : List (String × Json)) : Prop :=
  (∃ name ∈ Value.typeNames, Fields.names members = [name]) ∨
    (∃ inner, members = [("id", inner)] ∧ inner.SpellsIdentifier) ∨
    Fields.names members = ["$binary", "$type"] ∨ Fields.names members = ["$type", "$binary"]

end Json

namespace Value

open Json

theorem isSome_mapM {ι κ : Type} (read : ι → Option κ) (items : List ι) :
    (items.mapM read).isSome = true ↔ ∀ item ∈ items, (read item).isSome = true := by
  induction items with
  | nil => exact iff_of_true rfl fun item member => absurd member List.not_mem_nil
  | cons item rest induction =>
      rw [List.mapM_cons, List.forall_mem_cons, ← induction]
      cases read item with
      | none => simp
      | some first => cases rest.mapM read <;> simp

theorem length_of_mapM {ι κ : Type} {read : ι → Option κ} {items : List ι} {results : List κ}
    (found : items.mapM read = some results) : results.length = items.length := by
  induction items generalizing results with
  | nil =>
      cases found
      rfl
  | cons item rest induction =>
      rw [List.mapM_cons] at found
      rcases Option.bind_eq_some_iff.mp found with ⟨first, _, more⟩
      rcases Option.bind_eq_some_iff.mp more with ⟨others, later, equal⟩
      cases equal
      rw [List.length_cons, List.length_cons, induction later]

theorem isSome_natBelow? {bound : Nat} {json : Json} :
    (json.natBelow? bound).isSome = true ↔ ∃ byte < bound, json = .integer (.ofNat byte) := by
  unfold natBelow?
  split
  · rename_i number
    split
    · rename_i below
      exact iff_of_true rfl ⟨number, below, rfl⟩
    · rename_i beyond
      refine iff_of_false Bool.false_ne_true ?_
      rintro ⟨byte, below, equal⟩
      cases equal
      exact beyond below
  · rename_i other
    refine iff_of_false Bool.false_ne_true ?_
    rintro ⟨byte, below, equal⟩
    exact other byte equal

def byteAt? (members : List (String × Json)) (place : Nat) : Option Nat :=
  (Fields.get? (String.ofList (Text.ofNat place)) members).bind (natBelow? 256)

theorem isSome_byteAt? {members : List (String × Json)} {place : Nat} :
    (byteAt? members place).isSome = true ↔ ∃ byte < 256,
      Fields.get? (String.ofList (Text.ofNat place)) members = some (.integer (.ofNat byte)) := by
  rw [byteAt?]
  cases Fields.get? (String.ofList (Text.ofNat place)) members with
  | none =>
      refine iff_of_false Bool.false_ne_true ?_
      rintro ⟨byte, _, equal⟩
      cases equal
  | some json => simp only [Option.bind_some, isSome_natBelow?, Option.some.injEq]

/-- The bytes of an identifier are read just if each of them is there. -/
theorem isSome_bufferIdentifier? {json : Json} :
    (bufferIdentifier? json).isSome = true ↔ json.SpellsIdentifier := by
  cases json with
  | object members =>
      have each : ((List.range 12).mapM (byteAt? members)).isSome = true ↔ ∀ place < 12,
          ∃ byte < 256, Fields.get? (String.ofList (Text.ofNat place)) members =
            some (.integer (.ofNat byte)) := by
        simp only [isSome_mapM, List.mem_range, isSome_byteAt?]
      rw [bufferIdentifier?, SpellsIdentifier, ← each]
      split
      · rename_i twelve
        change (((List.range 12).mapM (byteAt? members)).bind fun bytes =>
          ObjectId.ofBytes? (bytes.map UInt8.ofNat)).isSome = true ↔ _
        cases found : (List.range 12).mapM (byteAt? members) with
        | none => exact iff_of_false Bool.false_ne_true fun spells => Bool.false_ne_true spells.2
        | some bytes =>
            have length : (bytes.map UInt8.ofNat).length = 12 := by
              rw [List.length_map, length_of_mapM found, List.length_range]
            rw [Option.bind_some, ObjectId.ofBytes?, dif_pos length]
            exact iff_of_true rfl ⟨twelve, rfl⟩
      · rename_i other
        exact iff_of_false Bool.false_ne_true fun spells => other spells.1
  | _ => exact iff_of_false Bool.false_ne_true id

/-! ## What is read as a document -/

theorem ofSingle?_eq_none_iff {name : String} {inner : Json} :
    ofSingle? name inner = .ok none ↔ name ∉ typeNames := by
  constructor
  · intro read
    rcases ofSingle?_cases read with ⟨value, equal, _⟩ | ⟨other, _⟩
    · cases equal
    · exact other
  · intro other
    simp only [typeNames, List.mem_cons, List.not_mem_nil, or_false, not_or] at other
    simp only [ofSingle?, other, if_false]

theorem reserved_single {name : String} {inner : Json} :
    Reserved [(name, inner)] ↔ name ∈ typeNames ∨ name = "id" ∧ inner.SpellsIdentifier := by
  constructor
  · rintro (⟨listed, member, equal⟩ | ⟨bytes, equal, spells⟩ | equal | equal)
    · cases equal
      exact .inl member
    · cases equal
      exact .inr ⟨rfl, spells⟩
    · cases equal
    · cases equal
  · rintro (member | ⟨rfl, spells⟩)
    · exact .inl ⟨name, member, rfl⟩
    · exact .inr (.inl ⟨inner, rfl, spells⟩)

theorem reserved_pair {first second : String × Json} :
    Reserved [first, second] ↔ "$binary" ∈ Fields.names [first, second] ∧
      "$type" ∈ Fields.names [first, second] := by
  rcases first with ⟨first, _⟩
  rcases second with ⟨second, _⟩
  simp only [Reserved, Fields.names, List.map_cons, List.map_nil, List.cons.injEq, reduceCtorEq,
    and_false, exists_false, false_or, and_true, false_and, List.mem_cons, List.not_mem_nil,
    or_false]
  constructor
  · rintro (⟨rfl, rfl⟩ | ⟨rfl, rfl⟩)
    · exact ⟨.inl rfl, .inr rfl⟩
    · exact ⟨.inr rfl, .inl rfl⟩
  · rintro ⟨binary | binary, type | type⟩
    · exact absurd (binary.trans type.symm) (by decide)
    · exact .inl ⟨binary.symm, type.symm⟩
    · exact .inr ⟨type.symm, binary.symm⟩
    · exact absurd (binary.trans type.symm) (by decide)

theorem ofWrapper?_single {name : String} {inner : Json} :
    ofWrapper? [(name, inner)] = .ok none ↔ ¬Reserved [(name, inner)] := by
  rw [reserved_single, ← isSome_bufferIdentifier?, ofWrapper?]
  by_cases isId : name = "id"
  · subst isId
    have plain : "id" ∉ typeNames := by decide
    rw [if_pos rfl]
    cases bufferIdentifier? inner with
    | some identifier =>
        refine iff_of_false (fun equal => ?_) fun no => no (.inr ⟨rfl, rfl⟩)
        cases equal
    | none =>
        refine iff_of_true (ofSingle?_eq_none_iff.mpr plain) ?_
        rintro (member | ⟨_, spells⟩)
        · exact plain member
        · cases spells
  · rw [if_neg isId]
    simp only [ofSingle?_eq_none_iff, isId, false_and, or_false]

theorem ofWrapper?_pair {first second : String × Json} :
    ofWrapper? [first, second] = .ok none ↔ ¬Reserved [first, second] := by
  rw [reserved_pair, ← Fields.isSome_get?, ← Fields.isSome_get?, ofWrapper?]
  cases Fields.get? "$binary" [first, second] with
  | none => exact iff_of_true rfl fun both => Bool.false_ne_true both.1
  | some payload =>
      cases Fields.get? "$type" [first, second] with
      | none => exact iff_of_true rfl fun both => Bool.false_ne_true both.2
      | some subtype =>
          refine iff_of_false (fun equal => ?_) fun no => no ⟨rfl, rfl⟩
          rcases bind_pure_eq_ok.mp equal with ⟨_, _, found⟩
          cases found

/-- An object is a document just if its shape is not a reserved one. -/
theorem ofWrapper?_eq_none_iff {members : List (String × Json)} :
    ofWrapper? members = .ok none ↔ ¬Reserved members := by
  match members with
  | [] => exact iff_of_true rfl (by simp [Reserved, Fields.names])
  | [(name, inner)] => exact ofWrapper?_single
  | [first, second] => exact ofWrapper?_pair
  | _ :: _ :: _ :: _ => exact iff_of_true rfl (by simp [Reserved, Fields.names])

end Value

end DocShell
