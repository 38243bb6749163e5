import DocShell.Proofs.Json.Source

namespace DocShell

/-! # Places in JSON

A place is a way from the outside in: to an item by its index, to a member by its name. A
source is taken apart there into what stands at the place and what is around it, and what is
around it is read alike whatever stands there. -/

inductive Turn
  | item (index : Nat)
  | member (name : String)
deriving DecidableEq, Repr

namespace Json

def part? : Turn → Json → Option Json
  | .item index, .array items => items[index]?
  | .member name, .object members => Fields.get? name members
  | _, _ => none

def at? : List Turn → Json → Option Json
  | [], json => some json
  | turn :: path, json => (json.part? turn).bind (at? path)

def ahead : Turn → Json → List Json
  | .item index, .array items => items.take index
  | .member name, .object members => (members.takeWhile (·.1 ≠ name)).map (·.2)
  | _, _ => []

def before : List Turn → Json → List Json
  | [], _ => []
  | turn :: path, json => json.ahead turn ++ ((json.part? turn).map (before path)).getD []

namespace Source

/-- One container around a place. No member behind the place takes the name away from it. -/
inductive Frame
  | item (before after : List Source)
  | member (before : List (String × Source)) (name : String) (after : List (String × Source))
      (last : name ∉ Fields.names after)

namespace Frame

def fill (inner : Source) : Frame → Source
  | .item before after => .array (before ++ inner :: after)
  | .member before name after _ => .object (before ++ (name, inner) :: after)

def turn : Frame → Turn
  | .item before _ => .item before.length
  | .member _ name _ _ => .member name

end Frame

def within (frames : List Frame) (inner : Source) : Source :=
  frames.foldr (fun frame inner => frame.fill inner) inner

def path (frames : List Frame) : List Turn := frames.map Frame.turn

/-! ## Lists around a place -/

theorem jsonItems?_append (room : Nat) (front back : List Source) :
    jsonItems? room (front ++ back) = (jsonItems? room front).bind fun first =>
      (jsonItems? room back).map fun second => first ++ second := by
  induction front with
  | nil => simp [jsonItems?]
  | cons item rest induction =>
      rw [List.cons_append, jsonItems?, jsonItems?, induction]
      cases item.json? room with
      | none => rfl
      | some json =>
          cases jsonItems? room rest with
          | none => rfl
          | some others => cases jsonItems? room back <;> rfl

theorem jsonMembers?_append (room : Nat) (front back : List (String × Source)) :
    jsonMembers? room (front ++ back) = (jsonMembers? room front).bind fun first =>
      (jsonMembers? room back).map fun second => first ++ second := by
  induction front with
  | nil => simp [jsonMembers?]
  | cons member rest induction =>
      rcases member with ⟨name, source⟩
      rw [List.cons_append, jsonMembers?, jsonMembers?, induction]
      cases source.json? room with
      | none => rfl
      | some json =>
          cases jsonMembers? room rest with
          | none => rfl
          | some others => cases jsonMembers? room back <;> rfl

theorem length_of_jsonItems? {room : Nat} {items : List Source} {jsons : List Json}
    (read : jsonItems? room items = some jsons) : jsons.length = items.length := by
  induction items generalizing jsons with
  | nil =>
      cases read
      rfl
  | cons item rest induction =>
      rcases Option.bind_eq_some_iff.mp read with ⟨json, _, more⟩
      rcases Option.map_eq_some_iff.mp more with ⟨others, found, rfl⟩
      rw [List.length_cons, List.length_cons, induction found]

theorem names_of_jsonMembers? {room : Nat} {members : List (String × Source)}
    {pairs : List (String × Json)} (read : jsonMembers? room members = some pairs) :
    Fields.names pairs = Fields.names members := by
  induction members generalizing pairs with
  | nil =>
      cases read
      rfl
  | cons member rest induction =>
      rcases Option.bind_eq_some_iff.mp read with ⟨json, _, more⟩
      rcases Option.map_eq_some_iff.mp more with ⟨others, found, rfl⟩
      exact congrArg (List.cons member.1) (induction found)

/-! ## Reading around a place -/

theorem exists_of_jsonItems? {room : Nat} {before after : List Source} {inner : Source}
    {items : List Json} (read : jsonItems? room (before ++ inner :: after) = some items) :
    ∃ first part last, first.length = before.length ∧ inner.json? room = some part ∧
      items = first ++ part :: last ∧
        ∀ (other : Source) (part : Json), other.json? room = some part →
          jsonItems? room (before ++ other :: after) = some (first ++ part :: last) := by
  rw [jsonItems?_append] at read
  rcases Option.bind_eq_some_iff.mp read with ⟨first, front, rest⟩
  rcases Option.map_eq_some_iff.mp rest with ⟨second, back, rfl⟩
  rcases Option.bind_eq_some_iff.mp back with ⟨part, here, others⟩
  rcases Option.map_eq_some_iff.mp others with ⟨last, later, rfl⟩
  refine ⟨first, part, last, length_of_jsonItems? front, here, rfl, fun other part found => ?_⟩
  rw [jsonItems?_append, front, jsonItems?, found, later]
  rfl

theorem exists_of_jsonMembers? {room : Nat} {before after : List (String × Source)}
    {name : String} {inner : Source} {pairs : List (String × Json)}
    (read : jsonMembers? room (before ++ (name, inner) :: after) = some pairs) :
    ∃ first part last, Fields.names last = Fields.names after ∧ inner.json? room = some part ∧
      pairs = first ++ (name, part) :: last ∧
        ∀ (other : Source) (part : Json), other.json? room = some part →
          jsonMembers? room (before ++ (name, other) :: after) =
            some (first ++ (name, part) :: last) := by
  rw [jsonMembers?_append] at read
  rcases Option.bind_eq_some_iff.mp read with ⟨first, front, rest⟩
  rcases Option.map_eq_some_iff.mp rest with ⟨second, back, rfl⟩
  rcases Option.bind_eq_some_iff.mp back with ⟨part, here, others⟩
  rcases Option.map_eq_some_iff.mp others with ⟨last, later, rfl⟩
  refine ⟨first, part, last, names_of_jsonMembers? later, here, rfl, fun other part found => ?_⟩
  rw [jsonMembers?_append, front, jsonMembers?, found, later]
  rfl

/-- A container around a place is read with what stands there, and around it alike whatever
that is. -/
theorem Frame.exists_of_fill (frame : Frame) {room : Nat} {inner : Source} {json : Json}
    (read : (frame.fill inner).json? room = some json) :
    ∃ part, inner.json? (room - 1) = some part ∧ json.part? frame.turn = some part ∧
      ∀ (other : Source) (part : Json), other.json? (room - 1) = some part → ∃ changed,
        (frame.fill other).json? room = some changed ∧ changed.part? frame.turn = some part ∧
          changed.ahead frame.turn = json.ahead frame.turn := by
  cases frame with
  | item before after =>
      rw [fill, json?] at read
      split at read
      · cases read
      rename_i room
      rcases Option.map_eq_some_iff.mp read with ⟨items, items_read, rfl⟩
      rcases exists_of_jsonItems? items_read with ⟨first, part, last, place, here, rfl, around⟩
      refine ⟨part, here, ?_, fun other part found => ⟨.array (first ++ part :: last), ?_, ?_, ?_⟩⟩
      · simp [part?, turn, ← place]
      · rw [fill, json?, if_neg room, around other part found]
        rfl
      · simp [part?, turn, ← place]
      · simp [ahead, turn, ← place]
  | member before name after last =>
      rw [fill, json?] at read
      split at read
      · cases read
      rename_i room
      rcases Option.map_eq_some_iff.mp read with ⟨pairs, pairs_read, rfl⟩
      rcases exists_of_jsonMembers? pairs_read with ⟨first, part, tail, names, here, rfl, around⟩
      rcases Fields.exists_ofPairs_eq first (names ▸ last) with ⟨front, back, fresh, merged⟩
      refine ⟨part, here, ?_, fun other part found =>
        ⟨.object (Fields.ofPairs (first ++ (name, part) :: tail)), ?_, ?_, ?_⟩⟩
      · rw [merged]
        exact Fields.get?_of_split fresh _ _
      · rw [fill, json?, if_neg room, around other part found]
        rfl
      · rw [merged]
        exact Fields.get?_of_split fresh _ _
      · rw [merged, merged]
        simp only [ahead, turn, Fields.takeWhile_of_split fresh]

/-- What stands at a place is read there, and what comes before it is read alike whatever
stands there. -/
theorem exists_of_within (frames : List Frame) {room : Nat} {inner : Source} {json : Json}
    (read : (inner.within frames).json? room = some json) :
    ∃ part, inner.json? (room - frames.length) = some part ∧ json.at? (path frames) = some part ∧
      ∀ (other : Source) (part : Json), other.json? (room - frames.length) = some part →
        ∃ changed : Json, (other.within frames).json? room = some changed ∧
          changed.at? (path frames) = some part ∧
          changed.before (path frames) = json.before (path frames) := by
  induction frames generalizing room json with
  | nil => exact ⟨json, read, rfl, fun other part found => ⟨part, found, rfl, rfl⟩⟩
  | cons frame frames induction =>
      rcases frame.exists_of_fill read with ⟨container, inside, here, around⟩
      rcases induction inside with ⟨part, found, place, alike⟩
      have levels : room - 1 - frames.length = room - (frame :: frames).length := by
        rw [List.length_cons]
        omega
      rw [levels] at found alike
      refine ⟨part, found, ?_, fun other part found => ?_⟩
      · rw [path, List.map_cons, at?, here]
        exact place
      · rcases alike other part found with ⟨changed, changed_read, changed_place, same⟩
        rcases around _ changed changed_read with ⟨outer, outer_read, outer_part, outer_ahead⟩
        refine ⟨outer, outer_read, ?_, ?_⟩
        · rw [path, List.map_cons, at?, outer_part]
          exact changed_place
        · rw [path, List.map_cons, before, before, outer_part, outer_ahead, here]
          exact congrArg (json.ahead frame.turn ++ ·) same

end Source

end Json

end DocShell
