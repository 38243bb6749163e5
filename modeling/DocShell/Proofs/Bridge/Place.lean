import DocShell.Proofs.Bridge.Reserved
import DocShell.Proofs.Json.Parts
import DocShell.Proofs.Json.Place

namespace DocShell

/-! # Places in values

What stands at a place of JSON is read as what stands at that place of the value, as long as
no object on the way stands for a typed value. It is the first failure if all that comes
before it can be read. -/

namespace Value

def part? : Turn → Value → Option Value
  | .item index, .array items => items[index]?
  | .member name, .document fields => Fields.get? name fields
  | _, _ => none

def at? : List Turn → Value → Option Value
  | [], value => some value
  | turn :: path, value => (value.part? turn).bind (at? path)

end Value

namespace Json

/-- No object on the way to a place stands for a typed value. -/
def OpenTo (path : List Turn) (json : Json) : Prop :=
  ∀ front members, front <+: path → json.at? front = some (.object members) → ¬Reserved members

theorem OpenTo.here {path : List Turn} {members : List (String × Json)}
    (opened : (Json.object members).OpenTo path) : ¬Reserved members :=
  opened [] members List.nil_prefix rfl

theorem OpenTo.inside {turn : Turn} {path : List Turn} {json part : Json}
    (opened : json.OpenTo (turn :: path)) (found : json.part? turn = some part) :
    part.OpenTo path := by
  intro front members inside reached
  refine opened (turn :: front) members (List.cons_prefix_cons.mpr ⟨rfl, inside⟩) ?_
  rw [at?, found]
  exact reached

end Json

namespace Value

open Json

/-! ## One turn -/

theorem exists_getElem?_ofItems {items : List Json} {values : List Value}
    (read : ofItems items = .ok values) {index : Nat} {part : Json}
    (found : items[index]? = some part) :
    ∃ value, ofJson part = .ok value ∧ values[index]? = some value := by
  induction items generalizing values index with
  | nil => cases found
  | cons item rest induction =>
      rcases bind_eq_ok.mp read with ⟨first, here, more⟩
      rcases bind_pure_eq_ok.mp more with ⟨others, later, rfl⟩
      cases index with
      | zero =>
          cases found
          exact ⟨first, here, rfl⟩
      | succ index => exact induction later found

theorem exists_get?_ofMembers {members : List (String × Json)} {fields : List (String × Value)}
    (read : ofMembers members = .ok fields) {name : String} {part : Json}
    (found : Fields.get? name members = some part) :
    ∃ value, ofJson part = .ok value ∧ Fields.get? name fields = some value := by
  induction members generalizing fields with
  | nil => cases found
  | cons member rest induction =>
      rcases member with ⟨other, json⟩
      rcases bind_eq_ok.mp read with ⟨first, here, more⟩
      rcases bind_pure_eq_ok.mp more with ⟨others, later, rfl⟩
      rw [Fields.get?] at found ⊢
      split at found
      · rename_i same
        cases found
        exact ⟨first, here, if_pos same⟩
      · rename_i differs
        rw [if_neg differs]
        exact induction later found

theorem ofItems_eq_error {items : List Json} {index : Nat} {part : Json} {failure : Failure}
    (clear : ∀ item ∈ items.take index, ∃ value, ofJson item = .ok value)
    (found : items[index]? = some part) (failed : ofJson part = .error failure) :
    ofItems items = .error failure := by
  induction items generalizing index with
  | nil => cases found
  | cons item rest induction =>
      cases index with
      | zero =>
          cases found
          exact bind_eq_error.mpr (.inl failed)
      | succ index =>
          rcases clear item List.mem_cons_self with ⟨first, here⟩
          have later := induction (fun other member => clear other (List.mem_cons_of_mem _ member))
            found
          exact bind_eq_error.mpr (.inr ⟨first, here, bind_pure_eq_error.mpr later⟩)

theorem ofMembers_eq_error {members : List (String × Json)} {name : String} {part : Json}
    {failure : Failure}
    (clear : ∀ member ∈ members.takeWhile (·.1 ≠ name), ∃ value, ofJson member.2 = .ok value)
    (found : Fields.get? name members = some part) (failed : ofJson part = .error failure) :
    ofMembers members = .error failure := by
  induction members with
  | nil => cases found
  | cons member rest induction =>
      rcases member with ⟨other, json⟩
      rw [Fields.get?] at found
      split at found
      · cases found
        exact bind_eq_error.mpr (.inl failed)
      · rename_i differs
        rw [List.takeWhile_cons_of_pos (by exact decide_eq_true differs)] at clear
        rcases clear (other, json) List.mem_cons_self with ⟨first, here⟩
        have later := induction (fun field member => clear field (List.mem_cons_of_mem _ member))
          found
        exact bind_eq_error.mpr (.inr ⟨first, here, bind_pure_eq_error.mpr later⟩)

/-! ## All the way -/

/-- What is read holds what stands at the place. -/
theorem exists_at? {path : List Turn} {json part : Json} {value : Value}
    (distinct : json.Distinct) (opened : json.OpenTo path) (read : ofJson json = .ok value)
    (found : json.at? path = some part) :
    ∃ inner, ofJson part = .ok inner ∧ value.at? path = some inner := by
  -- Turn by turn from the outside in: on the way no object is a wrapper, so each keeps its members.
  induction path generalizing json value with
  | nil =>
      cases found
      exact ⟨value, read, rfl⟩
  | cons turn path induction =>
      rcases Option.bind_eq_some_iff.mp found with ⟨inside, here, deeper⟩
      unfold Json.part? at here
      split at here
      · rename_i index items
        rcases bind_pure_eq_ok.mp read with ⟨values, items_read, rfl⟩
        rcases exists_getElem?_ofItems items_read here with ⟨inner, inner_read, place⟩
        rcases induction (objects_array.mp distinct inside (List.mem_of_getElem? here))
          (opened.inside here) inner_read deeper with ⟨value, value_read, reached⟩
        refine ⟨value, value_read, ?_⟩
        rw [at?, part?, place]
        exact reached
      · rename_i name members
        rcases objects_object.mp distinct with ⟨nodup, each⟩
        rw [ofJson, ofWrapper?_eq_none_iff.mpr opened.here] at read
        rcases bind_pure_eq_ok.mp read with ⟨fields, members_read, rfl⟩
        rcases exists_get?_ofMembers members_read here with ⟨inner, inner_read, place⟩
        rcases induction (each trivial (name, inside) (Fields.mem_of_get? here))
          (opened.inside here) inner_read deeper with ⟨value, value_read, reached⟩
        refine ⟨value, value_read, ?_⟩
        rw [at?, part?, Fields.ofPairs_of_nodup (names_of_ofMembers members_read ▸ nodup), place]
        exact reached
      · cases here

/-- What stands at the place fails for the whole if all that comes before it is read. -/
theorem ofJson_eq_error {path : List Turn} {json part : Json} {failure : Failure}
    (opened : json.OpenTo path) (clear : ∀ other ∈ json.before path, ∃ value, ofJson other = .ok value)
    (found : json.at? path = some part) (failed : ofJson part = .error failure) :
    ofJson json = .error failure := by
  induction path generalizing json with
  | nil =>
      cases found
      exact failed
  | cons turn path induction =>
      rcases Option.bind_eq_some_iff.mp found with ⟨inside, here, deeper⟩
      have ahead : ∀ other ∈ json.ahead turn, ∃ value, ofJson other = .ok value :=
        fun other member => clear other (List.mem_append_left _ member)
      have behind : ∀ other ∈ inside.before path, ∃ value, ofJson other = .ok value := by
        intro other member
        refine clear other (List.mem_append_right _ ?_)
        rw [here]
        exact member
      have failed := induction (opened.inside here) behind deeper
      unfold Json.part? at here
      split at here
      · exact bind_pure_eq_error.mpr (ofItems_eq_error ahead here failed)
      · rename_i name members
        rw [ofJson, ofWrapper?_eq_none_iff.mpr opened.here]
        refine bind_pure_eq_error.mpr (ofMembers_eq_error (fun member inside => ?_) here failed)
        exact ahead member.2 (List.mem_map_of_mem inside)
      · cases here

end Value

end DocShell
