import DocShell.Json.Reading
import DocShell.Proofs.Fields

namespace DocShell.Json

/-! # How deeply JSON nests

The reader is given room for a number of containers, one inside the other, and what
it reads never nests deeper. -/

mutual

def depth : Json → Nat
  | .array items => 1 + depthItems items
  | .object members => 1 + depthMembers members
  | _ => 0

def depthItems : List Json → Nat
  | [] => 0
  | item :: rest => max (depth item) (depthItems rest)

def depthMembers : List (String × Json) → Nat
  | [] => 0
  | (_, json) :: rest => max (depth json) (depthMembers rest)

end

theorem depthItems_le {items : List Json} {bound : Nat} :
    depthItems items ≤ bound ↔ ∀ item ∈ items, item.depth ≤ bound := by
  induction items with
  | nil => simp [depthItems]
  | cons item rest induction =>
      rw [depthItems, Nat.max_le, induction, List.forall_mem_cons]

theorem depthMembers_le {members : List (String × Json)} {bound : Nat} :
    depthMembers members ≤ bound ↔ ∀ member ∈ members, member.2.depth ≤ bound := by
  induction members with
  | nil => simp [depthMembers]
  | cons member rest induction =>
      rw [depthMembers, Nat.max_le, induction, List.forall_mem_cons]

/-! ## The readers -/

section

variable (holds : Json → Prop) {read : (text : List Char) → Option (Taken Json Char text.length)}
  (each : ∀ text taken, read text = some taken → holds taken.item)

include each

theorem forall_items? {text : List Char} {taken : Taken (List Json) Char text.length}
    (found : items? read text = some taken) : ∀ item ∈ taken.item, holds item := by
  fun_induction items? read text with
  | case1 text missing => cases found
  | case2 text item rest shorter equal behind closed =>
      cases found
      intro other member
      exact List.mem_singleton.mp member ▸ each _ _ equal
  | case3 text item rest shorter equal behind comma fits later =>
      rcases Option.map_eq_some_iff.mp found with ⟨more, inner, rfl⟩
      intro other member
      rcases List.mem_cons.mp member with rfl | rest
      · exact each _ _ equal
      · exact later inner other rest
  | case4 text item rest shorter equal noClose noComma => cases found

theorem forall_members? {text : List Char} {taken : Taken (List (String × Json)) Char text.length}
    (found : members? read text = some taken) : ∀ member ∈ taken.item, holds member.2 := by
  fun_induction members? read text with
  | case1 text missing => cases found
  | case2 text name value named equal missing => cases found
  | case3 text name value named equal item rest shorter valued behind closed =>
      cases found
      intro other member
      exact List.mem_singleton.mp member ▸ each _ _ valued
  | case4 text name value named equal item rest shorter valued behind comma fits later =>
      rcases Option.map_eq_some_iff.mp found with ⟨more, inner, rfl⟩
      intro other member
      rcases List.mem_cons.mp member with rfl | rest
      · exact each _ _ valued
      · exact later inner other rest
  | case5 text name value named equal item rest shorter valued noClose noComma => cases found

end

theorem depth_of_finite? {number : Double} {json : Json} (made : finite? number = some json) :
    json.depth = 0 := by
  rw [finite?] at made
  split at made
  · cases made
    rfl
  · cases made

theorem depth_of_ofDigits? {negative : Bool} {digits : List Char} {json : Json}
    (made : ofDigits? negative digits = some json) : json.depth = 0 := by
  simp only [ofDigits?] at made
  split at made
  · cases made
    rfl
  · split at made
    · cases made
      rfl
    · exact depth_of_finite? made

theorem depth_of_unsigned? {negative : Bool} {text : List Char}
    {taken : Taken Json Char text.length} (read : unsigned? negative text = some taken) :
    taken.item.depth = 0 := by
  simp only [unsigned?] at read
  split at read
  · split at read
    · cases read
    split at read
    · cases read
    split at read
    · cases read
    rcases Option.map_eq_some_iff.mp read with ⟨json, made, rfl⟩
    split at made
    · exact depth_of_ofDigits? made
    · exact depth_of_finite? made
  · cases read

theorem depth_of_scalar? {text : List Char} {taken : Taken Json Char text.length}
    (read : scalar? text = some taken) : taken.item.depth = 0 := by
  unfold scalar? at read
  split at read
  · cases read
    rfl
  · cases read
    rfl
  · cases read
    rfl
  · split at read
    · cases read
      rfl
    · cases read
  · rcases Option.map_eq_some_iff.mp read with ⟨number, found, rfl⟩
    rw [Taken.item_widen]
    exact depth_of_unsigned? found
  · exact depth_of_unsigned? read

/-! ## Containers -/

section

variable {holds : (room : Nat) → Json → Prop}
  (flat : ∀ room json, json.depth = 0 → holds room json)
  (array : ∀ room items, (∀ item ∈ items, holds room item) → holds (room + 1) (.array items))
  (object : ∀ room members, (Fields.names members).Nodup →
    (∀ member ∈ members, holds room member.2) → holds (room + 1) (.object members))

include flat array object

/-- What every container passes on from its parts holds of all that is read. An object may
rely on the names of its members, for a later member replaces one of the same name. -/
theorem holds_of_value? {room : Nat} {text : List Char} {taken : Taken Json Char text.length}
    (read : value? room text = some taken) : holds room taken.item := by
  induction room generalizing text with
  | zero =>
      rw [value?] at read
      split at read
      · cases read
      · cases read
      · rcases Option.map_eq_some_iff.mp read with ⟨start, found, rfl⟩
        rw [Taken.item_widen]
        exact flat 0 _ (depth_of_scalar? found)
  | succ room induction =>
      have each : ∀ text taken, value? room text = some taken → holds room taken.item :=
        fun text taken found => induction found
      rw [value?] at read
      simp only at read
      split at read
      · split at read
        · cases read
          exact array room [] fun item member => absurd member List.not_mem_nil
        · rcases Option.map_eq_some_iff.mp read with ⟨items, found, rfl⟩
          rw [Taken.item_widen, Taken.item_map]
          exact array room _ (forall_items? (holds room) each found)
      · split at read
        · cases read
          exact object room [] List.nodup_nil fun member inside => absurd inside List.not_mem_nil
        · rcases Option.map_eq_some_iff.mp read with ⟨pairs, found, rfl⟩
          have members := forall_members? (holds room) each found
          rw [Taken.item_widen, Taken.item_map]
          exact object room _ (Fields.nodup_ofPairs pairs.item) fun member inside =>
            members member (Fields.mem_of_mem_ofPairs inside)
      · rcases Option.map_eq_some_iff.mp read with ⟨start, found, rfl⟩
        rw [Taken.item_widen]
        exact flat (room + 1) _ (depth_of_scalar? found)

theorem holds_of_parse? {text : String} {json : Json} (read : parse? text = some json) :
    holds depthLimit json := by
  rw [parse?, front?] at read
  cases found : value? depthLimit text.toList with
  | none =>
      rw [found] at read
      cases read
  | some taken =>
      simp only [found, Option.map_some] at read
      split at read
      · cases read
        exact holds_of_value? flat array object found
      · cases read

end

/-- What is read of a whole text stays within the limit. -/
theorem depth_le_of_parse? {text : String} {json : Json} (read : parse? text = some json) :
    json.depth ≤ depthLimit := by
  refine @holds_of_parse? (fun room json => json.depth ≤ room) ?flat ?array ?object _ _ read
  case flat =>
    intro room json flat
    exact flat ▸ Nat.zero_le room
  case array =>
    intro room items each
    rw [depth, Nat.add_comm]
    exact Nat.succ_le_succ (depthItems_le.mpr each)
  case object =>
    intro room members _ each
    rw [depth, Nat.add_comm]
    exact Nat.succ_le_succ (depthMembers_le.mpr each)

end DocShell.Json
