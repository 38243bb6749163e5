namespace DocShell

/-! # Ordered fields

Names with values, in the order in which the names first came. Writing to a name
that is present replaces its value in place; a name that was erased and comes
again goes to the end. The same rules hold for the fields of documents and for
the members of JSON objects. -/

abbrev Fields (α : Type) := List (String × α)

namespace Fields

variable {α : Type}

def names (fields : Fields α) : List String := fields.map (·.1)

def get? (name : String) : Fields α → Option α
  | [] => none
  | (other, value) :: rest => if other = name then some value else get? name rest

/-- Write a value under a name, at the place of that name or else at the end. -/
def insert (name : String) (value : α) : Fields α → Fields α
  | [] => [(name, value)]
  | (other, old) :: rest =>
      if other = name then (other, value) :: rest else (other, old) :: insert name value rest

def overwrite (name : String) (value : α) : Fields α → Fields α
  | [] => []
  | (other, old) :: rest =>
      if other = name then (other, value) :: rest
      else (other, old) :: overwrite name value rest

def erase (name : String) : Fields α → Fields α
  | [] => []
  | (other, old) :: rest => if other = name then rest else (other, old) :: erase name rest

def ofPairs (pairs : List (String × α)) : Fields α :=
  pairs.foldl (fun fields pair => insert pair.1 pair.2 fields) []

def exchange (name : String) (value : α) : Fields α → Option α × Fields α
  | [] => (none, [(name, value)])
  | (other, old) :: rest =>
      if other = name then (some old, (other, value) :: rest)
      else
        let (previous, changed) := exchange name value rest
        (previous, (other, old) :: changed)

def remove (name : String) : Fields α → Option α × Fields α
  | [] => (none, [])
  | (other, old) :: rest =>
      if other = name then (some old, rest)
      else
        let (removed, changed) := remove name rest
        (removed, (other, old) :: changed)

/-- Show the fields in order to a decision with a memory, and keep those to which it leaves a
value. -/
def retain {σ : Type} (keep : σ → String → α → Option α × σ) : σ → Fields α → Fields α
  | _, [] => []
  | memory, (name, value) :: rest =>
      match keep memory name value with
      | (some kept, next) => (name, kept) :: retain keep next rest
      | (none, next) => retain keep next rest

theorem exchange_eq (name : String) (value : α) (fields : Fields α) :
    exchange name value fields = (get? name fields, insert name value fields) := by
  induction fields with
  | nil => rfl
  | cons head rest induction =>
      rcases head with ⟨other, old⟩
      by_cases equal : other = name <;> simp [exchange, get?, insert, equal, induction]

theorem remove_eq (name : String) (fields : Fields α) :
    remove name fields = (get? name fields, erase name fields) := by
  induction fields with
  | nil => rfl
  | cons head rest induction =>
      rcases head with ⟨other, old⟩
      by_cases equal : other = name <;> simp [remove, get?, erase, equal, induction]

theorem get?_insert_self (name : String) (value : α) (fields : Fields α) :
    get? name (insert name value fields) = some value := by
  induction fields with
  | nil => simp [insert, get?]
  | cons head rest induction =>
      rcases head with ⟨other, old⟩
      by_cases equal : other = name <;> simp [insert, get?, equal, induction]

theorem get?_insert_of_ne {name other : String} (value : α) (fields : Fields α)
    (different : other ≠ name) :
    get? other (insert name value fields) = get? other fields := by
  induction fields with
  | nil => simp [insert, get?, Ne.symm different]
  | cons head rest induction =>
      rcases head with ⟨first, old⟩
      by_cases equal : first = name
      · subst equal
        simp [insert, get?, Ne.symm different]
      · simp [insert, get?, equal, induction]

/-- Inserting keeps the names that are there and adds a new one at the end. -/
theorem names_insert (name : String) (value : α) (fields : Fields α) :
    names (insert name value fields) =
      if name ∈ names fields then names fields else names fields ++ [name] := by
  induction fields with
  | nil => simp [insert, names]
  | cons head rest induction =>
      rcases head with ⟨other, old⟩
      simp only [names] at induction
      by_cases equal : other = name
      · subst equal
        simp [insert, names]
      · by_cases member : name ∈ rest.map (·.1) <;>
          simp [insert, names, equal, Ne.symm equal, induction, member]

end Fields

end DocShell
