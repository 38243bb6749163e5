import DocShell.Proofs.Fields
import Mathlib.Data.Finset.Card
import Mathlib.Data.List.Nodup

namespace DocShell.Fields

/-! # Fields under a sequence of operations

Fields that start empty are determined by their history: what was written and dropped under
which name, and in what order. A name holds what was last written to it since it was last absent,
and the names are ordered by when they came. -/

variable {α : Type}

/-! ## Histories -/

inductive Event (α : Type)
  | write (name : String) (value : α)
  | overwrite (name : String) (value : α)
  | drop (name : String)
  | clear

/-- The value last written under a name since the name was last absent, in a history that tells
the latest event first. -/
def lastWritten (name : String) : List (Event α) → Option α
  | [] => none
  | .write other value :: earlier => if other = name then some value else lastWritten name earlier
  | .overwrite other value :: earlier =>
      if other = name then (lastWritten name earlier).map fun _ => value
      else lastWritten name earlier
  | .drop other :: earlier => if other = name then none else lastWritten name earlier
  | .clear :: _ => none

/-- The moment at which a name was first written since it was last absent. -/
def since (name : String) : List (Event α) → Option Nat
  | [] => none
  | .write other _ :: earlier =>
      if other = name then some ((since name earlier).getD earlier.length) else since name earlier
  | .overwrite _ _ :: earlier => since name earlier
  | .drop other :: earlier => if other = name then none else since name earlier
  | .clear :: _ => none

theorem since_lt {name : String} {history : List (Event α)} {moment : Nat}
    (held : since name history = some moment) : moment < history.length := by
  induction history generalizing moment with
  | nil => cases held
  | cons event earlier induction =>
      rw [List.length_cons]
      cases event with
      | write other value =>
          rw [since] at held
          split at held
          · cases held
            cases before : since name earlier with
            | none => exact Nat.lt_succ_self _
            | some former => exact Nat.lt_succ_of_lt (induction before)
          · exact Nat.lt_succ_of_lt (induction held)
      | overwrite other value => exact Nat.lt_succ_of_lt (induction held)
      | drop other =>
          rw [since] at held
          split at held
          · cases held
          · exact Nat.lt_succ_of_lt (induction held)
      | clear => cases held

theorem since_write_of_ne {name other : String} (different : other ≠ name) (value : α)
    (history : List (Event α)) :
    since other (.write name value :: history) = since other history := by
  rw [since, if_neg (Ne.symm different)]

/-! ## One event -/

def Event.apply : Event α → Fields α → Fields α
  | .write name value, fields => insert name value fields
  | .overwrite name value, fields => Fields.overwrite name value fields
  | .drop name, fields => erase name fields
  | .clear, _ => []

theorem names_overwrite (name : String) (value : α) (fields : Fields α) :
    names (overwrite name value fields) = names fields := by
  induction fields with
  | nil => rfl
  | cons head rest induction =>
      rcases head with ⟨other, old⟩
      rw [overwrite]
      split
      · rfl
      · exact congrArg (other :: ·) induction

theorem names_erase (name : String) (fields : Fields α) :
    names (erase name fields) = (names fields).erase name := by
  induction fields with
  | nil => rfl
  | cons head rest induction =>
      rcases head with ⟨other, old⟩
      have cons : names ((other, old) :: rest) = other :: names rest := rfl
      rw [erase, cons]
      split
      · rename_i equal
        rw [equal, List.erase_cons_head]
      · rename_i different
        rw [List.erase_cons_tail (by simpa using different), ← induction]
        rfl

theorem get?_overwrite (name other : String) (value : α) (fields : Fields α) :
    get? other (overwrite name value fields) =
      if name = other then (get? other fields).map fun _ => value else get? other fields := by
  induction fields with
  | nil => exact (ite_self none).symm
  | cons head rest induction =>
      rcases head with ⟨first, old⟩
      by_cases here : first = name
      · subst here
        by_cases equal : first = other <;> simp [overwrite, get?, equal]
      · rw [overwrite, if_neg here, get?, get?, induction]
        by_cases equal : first = other
        · have different : name ≠ other := fun same => here (equal.trans same.symm)
          rw [if_pos equal, if_pos equal, if_neg different]
        · rw [if_neg equal, if_neg equal]

theorem get?_erase {fields : Fields α} (distinct : (names fields).Nodup) (name other : String) :
    get? other (erase name fields) = if name = other then none else get? other fields := by
  induction fields with
  | nil => exact (ite_self none).symm
  | cons head rest induction =>
      rcases head with ⟨first, old⟩
      have parts := List.nodup_cons.mp distinct
      by_cases here : first = name
      · subst here
        rw [erase, if_pos rfl, get?]
        split
        · rename_i equal
          exact get?_eq_none (equal ▸ parts.1)
        · rfl
      · rw [erase, if_neg here, get?, get?, induction parts.2]
        by_cases equal : first = other
        · have different : name ≠ other := fun same => here (equal.trans same.symm)
          rw [if_pos equal, if_pos equal, if_neg different]
        · rw [if_neg equal, if_neg equal]

structure Agrees (fields : Fields α) (history : List (Event α)) : Prop where
  distinct : (names fields).Nodup
  holds : ∀ name, get? name fields = lastWritten name history
  present : ∀ name, name ∈ names fields ↔ (since name history).isSome = true
  ordered : (names fields).Pairwise fun first second =>
    ∀ former ∈ since first history, ∀ latter ∈ since second history, former < latter

namespace Agrees

variable {fields : Fields α} {history : List (Event α)}

theorem empty : Agrees ([] : Fields α) [] where
  distinct := List.nodup_nil
  holds _ := rfl
  present _ := iff_of_false List.not_mem_nil Bool.false_ne_true
  ordered := List.Pairwise.nil

/-- Names that came no later than before keep their order. -/
theorem ordered_of_sublist (agrees : Agrees fields history) {kept : List String}
    (sublist : kept.Sublist (names fields)) {later : List (Event α)}
    (unmoved : ∀ name ∈ kept, since name later = since name history) :
    kept.Pairwise fun first second =>
      ∀ former ∈ since first later, ∀ latter ∈ since second later, former < latter := by
  refine (agrees.ordered.sublist sublist).imp_of_mem fun {first second} left right before => ?_
  rw [unmoved first left, unmoved second right]
  exact before

/-- A name that is there keeps its moment; a new one is later than all others. -/
theorem ordered_write (agrees : Agrees fields history) (name : String) (value : α) :
    (names (insert name value fields)).Pairwise fun first second =>
      ∀ former ∈ since first (.write name value :: history),
        ∀ latter ∈ since second (.write name value :: history), former < latter := by
  rw [names_insert]
  by_cases there : name ∈ names fields
  · rw [if_pos there]
    refine agrees.ordered_of_sublist (List.Sublist.refl _) fun other _ => ?_
    by_cases equal : other = name
    · subst equal
      rcases Option.isSome_iff_exists.mp ((agrees.present other).mp there) with ⟨moment, held⟩
      rw [since, if_pos rfl, held, Option.getD_some]
    · exact since_write_of_ne equal value history
  · rw [if_neg there, List.pairwise_append]
    have earlier {other : String} (member : other ∈ names fields) :
        since other (.write name value :: history) = since other history := by
      refine since_write_of_ne ?_ value history
      rintro rfl
      exact there member
    refine ⟨agrees.ordered_of_sublist (List.Sublist.refl _) fun other => earlier,
      List.pairwise_singleton _ _, fun first member second single former came latter now => ?_⟩
    have fresh : since name history = none := by
      rw [← Option.not_isSome_iff_eq_none, ← agrees.present]
      exact there
    rw [List.mem_singleton.mp single, since, if_pos rfl, fresh, Option.getD_none] at now
    cases now
    rw [earlier member] at came
    exact since_lt came

theorem write (agrees : Agrees fields history) (name : String) (value : α) :
    Agrees (insert name value fields) (.write name value :: history) := by
  refine ⟨nodup_insert agrees.distinct name value, fun other => ?_, fun other => ?_,
    agrees.ordered_write name value⟩
  · rw [get?_insert, lastWritten, agrees.holds]
  · rw [mem_names_insert, agrees.present, since]
    by_cases equal : name = other
    · rw [if_pos equal]
      exact iff_of_true (.inl equal.symm) rfl
    · rw [if_neg equal]
      exact or_iff_right (Ne.symm equal)

theorem overwrite (agrees : Agrees fields history) (name : String) (value : α) :
    Agrees (Fields.overwrite name value fields) (.overwrite name value :: history) := by
  refine ⟨?_, fun other => ?_, fun other => ?_, ?_⟩
  · rw [names_overwrite]
    exact agrees.distinct
  · rw [get?_overwrite, lastWritten, agrees.holds]
  · rw [names_overwrite]
    exact agrees.present other
  · rw [names_overwrite]
    exact agrees.ordered

theorem drop (agrees : Agrees fields history) (name : String) :
    Agrees (erase name fields) (.drop name :: history) := by
  have sublist : (names (erase name fields)).Sublist (names fields) := by
    rw [names_erase]
    exact List.erase_sublist
  have member (other : String) :
      other ∈ names (erase name fields) ↔ other ≠ name ∧ other ∈ names fields := by
    rw [names_erase, agrees.distinct.mem_erase_iff]
  refine ⟨agrees.distinct.sublist sublist, fun other => ?_, fun other => ?_, ?_⟩
  · rw [get?_erase agrees.distinct, lastWritten, agrees.holds]
  · rw [member, agrees.present, since]
    by_cases equal : name = other
    · rw [if_pos equal]
      exact iff_of_false (fun both => both.1 equal.symm) Bool.false_ne_true
    · rw [if_neg equal]
      exact and_iff_right (Ne.symm equal)
  · refine agrees.ordered_of_sublist sublist fun other found => ?_
    rw [since, if_neg (Ne.symm ((member other).mp found).1)]

theorem clear (history : List (Event α)) : Agrees ([] : Fields α) (.clear :: history) where
  distinct := List.nodup_nil
  holds _ := rfl
  present _ := iff_of_false List.not_mem_nil Bool.false_ne_true
  ordered := List.Pairwise.nil

theorem event (agrees : Agrees fields history) (event : Event α) :
    Agrees (event.apply fields) (event :: history) := by
  cases event with
  | write name value => exact agrees.write name value
  | overwrite name value => exact agrees.overwrite name value
  | drop name => exact agrees.drop name
  | clear => exact clear history

theorem events (agrees : Agrees fields history) (events : List (Event α)) :
    Agrees (events.foldl (fun fields event => event.apply fields) fields)
      (events.reverse ++ history) := by
  induction events generalizing fields history with
  | nil => exact agrees
  | cons event rest induction =>
      rw [List.foldl_cons, List.reverse_cons, List.append_assoc, List.singleton_append]
      exact induction (agrees.event event)

end Agrees

/-! ## Operations -/

/-- What can be done with fields. A field is overwritten in place if it is there; fields are
rebuilt from pairs, and given away as a whole. -/
inductive Operation (α : Type) : Type 1
  | insert (name : String) (value : α)
  | overwrite (name : String) (value : α)
  | remove (name : String)
  | rebuild (pairs : List (String × α))
  | retain {σ : Type} (keep : σ → String → α → Option α × σ) (memory : σ)
  | drain

def decisions {σ : Type} (keep : σ → String → α → Option α × σ) : σ → Fields α → List (Event α)
  | _, [] => []
  | memory, (name, value) :: rest =>
      match keep memory name value with
      | (some kept, next) => .overwrite name kept :: decisions keep next rest
      | (none, next) => .drop name :: decisions keep next rest

namespace Operation

def apply : Operation α → Fields α → Fields α
  | .insert name value, fields => (exchange name value fields).2
  | .overwrite name value, fields => Fields.overwrite name value fields
  | .remove name, fields => (Fields.remove name fields).2
  | .rebuild pairs, _ => ofPairs pairs
  | .retain keep memory, fields => Fields.retain keep memory fields
  | .drain, _ => []

def events : Operation α → Fields α → List (Event α)
  | .insert name value, _ => [.write name value]
  | .overwrite name value, _ => [.overwrite name value]
  | .remove name, _ => [.drop name]
  | .rebuild pairs, _ => .clear :: pairs.map fun pair => .write pair.1 pair.2
  | .retain keep memory, fields => decisions keep memory fields
  | .drain, _ => [.clear]

end Operation

theorem overwrite_of_split {name : String} {front : Fields α} (fresh : name ∉ names front)
    (value old : α) (back : Fields α) :
    overwrite name value (front ++ (name, old) :: back) = front ++ (name, value) :: back := by
  induction front with
  | nil => exact if_pos rfl
  | cons head rest induction =>
      rcases head with ⟨other, first⟩
      rw [names, List.map_cons, List.mem_cons, not_or] at fresh
      rw [List.cons_append, overwrite, if_neg (Ne.symm fresh.1), induction fresh.2]
      rfl

theorem erase_of_split {name : String} {front : Fields α} (fresh : name ∉ names front) (old : α)
    (back : Fields α) : erase name (front ++ (name, old) :: back) = front ++ back := by
  induction front with
  | nil => exact if_pos rfl
  | cons head rest induction =>
      rcases head with ⟨other, first⟩
      rw [names, List.map_cons, List.mem_cons, not_or] at fresh
      rw [List.cons_append, erase, if_neg (Ne.symm fresh.1), induction fresh.2]
      rfl

/-- The fields that were passed stand in front of those that are still to be shown. -/
theorem foldl_decisions {σ : Type} (keep : σ → String → α → Option α × σ) (memory : σ)
    {front fields : Fields α} (distinct : (names (front ++ fields)).Nodup) :
    (decisions keep memory fields).foldl (fun fields event => event.apply fields)
      (front ++ fields) = front ++ retain keep memory fields := by
  induction fields generalizing front memory with
  | nil => rfl
  | cons head rest induction =>
      rcases head with ⟨name, value⟩
      have split : names (front ++ (name, value) :: rest) = names front ++ name :: names rest := by
        rw [names, List.map_append]
        rfl
      rw [split] at distinct
      have fresh : name ∉ names front := fun member =>
        (List.nodup_append.mp distinct).2.2 _ member _ List.mem_cons_self rfl
      rw [decisions, retain]
      rcases keep memory name value with ⟨_ | kept, next⟩
      · rw [List.foldl_cons, Event.apply, erase_of_split fresh]
        refine induction next ?_
        rw [names, List.map_append]
        exact distinct.sublist ((List.sublist_cons_self _ _).append_left _)
      · have passed : front ++ (name, kept) :: rest = (front ++ [(name, kept)]) ++ rest := by
          rw [List.append_assoc, List.singleton_append]
        rw [List.foldl_cons, Event.apply, overwrite_of_split fresh, passed, induction next ?_,
          List.append_assoc, List.singleton_append]
        rw [← passed, names, List.map_append]
        exact distinct

/-- An operation does what its events do. -/
theorem Operation.apply_eq (operation : Operation α) {fields : Fields α}
    (distinct : (names fields).Nodup) : operation.apply fields =
      (operation.events fields).foldl (fun fields event => event.apply fields) fields := by
  cases operation with
  | insert name value => rw [Operation.apply, exchange_eq]; rfl
  | overwrite name value => rfl
  | remove name => rw [Operation.apply, remove_eq]; rfl
  | rebuild pairs => rw [events, List.foldl_cons, List.foldl_map]; rfl
  | retain keep memory =>
      have whole : (names ([] ++ fields)).Nodup := distinct
      exact (foldl_decisions keep memory whole).symm
  | drain => rfl

/-! ## Runs -/

def step (state : Fields α × List (Event α)) (operation : Operation α) :
    Fields α × List (Event α) :=
  (operation.apply state.1, (operation.events state.1).reverse ++ state.2)

def run (operations : List (Operation α)) : Fields α × List (Event α) :=
  operations.foldl step ([], [])

theorem Agrees.step {state : Fields α × List (Event α)} (agrees : Agrees state.1 state.2)
    (operation : Operation α) :
    Agrees (Fields.step state operation).1 (Fields.step state operation).2 := by
  rw [Fields.step, operation.apply_eq agrees.distinct]
  exact agrees.events _

theorem agrees_run (operations : List (Operation α)) :
    Agrees (run operations).1 (run operations).2 := by
  have onward {state : Fields α × List (Event α)} (agrees : Agrees state.1 state.2) :
      Agrees (operations.foldl step state).1 (operations.foldl step state).2 := by
    induction operations generalizing state with
    | nil => exact agrees
    | cons operation rest induction => exact induction (agrees.step operation)
  exact onward Agrees.empty

/-! ## Beside a name -/

def others (name : String) (fields : Fields α) : Fields α := fields.filter (·.1 ≠ name)

theorem others_cons (name other : String) (value : α) (rest : Fields α) :
    others name ((other, value) :: rest) =
      if other = name then others name rest else (other, value) :: others name rest := by
  by_cases equal : other = name <;> simp [others, equal]

theorem others_insert (name : String) (value : α) (fields : Fields α) :
    others name (insert name value fields) = others name fields := by
  induction fields with
  | nil => rw [insert, others_cons, if_pos rfl]
  | cons head rest induction =>
      rcases head with ⟨other, old⟩
      rw [insert]
      split <;> simp [others_cons, *]

theorem others_overwrite (name : String) (value : α) (fields : Fields α) :
    others name (overwrite name value fields) = others name fields := by
  induction fields with
  | nil => rfl
  | cons head rest induction =>
      rcases head with ⟨other, old⟩
      rw [overwrite]
      split <;> simp [others_cons, *]

theorem others_erase (name : String) (fields : Fields α) :
    others name (erase name fields) = others name fields := by
  induction fields with
  | nil => rfl
  | cons head rest induction =>
      rcases head with ⟨other, old⟩
      rw [erase]
      split <;> simp [others_cons, *]

/-! ## The ordered map -/

theorem get?_eq_some_iff {fields : Fields α} (distinct : (names fields).Nodup) {name : String}
    {value : α} : get? name fields = some value ↔ (name, value) ∈ fields := by
  refine ⟨mem_of_get?, fun member => ?_⟩
  rcases List.append_of_mem member with ⟨front, back, rfl⟩
  rw [names, List.map_append] at distinct
  exact get?_of_split (fun inFront =>
    (List.nodup_append.mp distinct).2.2 _ inFront _ List.mem_cons_self rfl) value back

/-- Fields that are a map ordered by insertion, with the history that they come from. -/
structure InsertionOrdered (fields : Fields α) (history : List (Event α)) : Prop
    extends Agrees fields history where
  entries : ∀ name value, get? name fields = some value ↔ (name, value) ∈ fields
  contains : ∀ name, (get? name fields).isSome = true ↔ name ∈ names fields
  size : ∃ held : Finset String, (∀ name, name ∈ held ↔ (since name history).isSome = true) ∧
    fields.length = held.card
  isEmpty : fields.isEmpty = true ↔ ∀ name, since name history = none
  exchanged : ∀ name value, (exchange name value fields).1 = lastWritten name history
  removed : ∀ name, (remove name fields).1 = lastWritten name history
  beside : ∀ name value,
    others name (exchange name value fields).2 = others name fields ∧
    others name (overwrite name value fields) = others name fields ∧
    others name (remove name fields).2 = others name fields
  rebuilt : ofPairs fields = fields

theorem Agrees.insertionOrdered {fields : Fields α} {history : List (Event α)}
    (agrees : Agrees fields history) : InsertionOrdered fields history where
  toAgrees := agrees
  entries _ _ := get?_eq_some_iff agrees.distinct
  contains _ := isSome_get?
  size := by
    refine ⟨(names fields).toFinset, fun name => ?_, ?_⟩
    · rw [List.mem_toFinset, agrees.present]
    · rw [List.toFinset_card_of_nodup agrees.distinct, names, List.length_map]
  isEmpty := by
    constructor
    · intro none name
      rw [← Option.not_isSome_iff_eq_none, ← agrees.present, List.isEmpty_iff.mp none]
      exact List.not_mem_nil
    · intro absent
      cases fields with
      | nil => rfl
      | cons head rest =>
          have there := (agrees.present head.1).mp List.mem_cons_self
          rw [absent] at there
          cases there
  exchanged name value := by rw [exchange_eq, agrees.holds]
  removed name := by rw [remove_eq, agrees.holds]
  beside name value := by
    rw [exchange_eq, remove_eq]
    exact ⟨others_insert name value fields, others_overwrite name value fields,
      others_erase name fields⟩
  rebuilt := ofPairs_of_nodup agrees.distinct

/-- Whatever is done to fields that start empty, they are a map ordered by insertion. -/
theorem run_insertionOrdered (operations : List (Operation α)) :
    InsertionOrdered (run operations).1 (run operations).2 :=
  (agrees_run operations).insertionOrdered

/-- A name that was removed comes again at the end; one that is there keeps its place. -/
example : (run [.insert "a" 1, .insert "b" 2, .remove "a", .insert "a" 3, .insert "b" 4]).1 =
    [("b", 4), ("a", 3)] := rfl

end DocShell.Fields
