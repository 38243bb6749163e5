import DocShell.Fields

namespace DocShell.Fields

/-! # Fields with different names

Inserting pairs one after the other never repeats a name, and changes nothing
about pairs that do not repeat one. -/

variable {α : Type}

theorem insert_of_not_mem {name : String} {fields : Fields α} (fresh : name ∉ names fields)
    (value : α) : insert name value fields = fields ++ [(name, value)] := by
  induction fields with
  | nil => rfl
  | cons head rest induction =>
      rcases head with ⟨other, old⟩
      rw [names, List.map_cons, List.mem_cons, not_or] at fresh
      rw [insert, if_neg (Ne.symm fresh.1), induction fresh.2]
      rfl

theorem foldl_insert_of_nodup {front pairs : Fields α} (nodup : (names (front ++ pairs)).Nodup) :
    pairs.foldl (fun fields pair => insert pair.1 pair.2 fields) front = front ++ pairs := by
  induction pairs generalizing front with
  | nil => exact (List.append_nil front).symm
  | cons pair rest induction =>
      have split : front ++ pair :: rest = (front ++ [pair]) ++ rest := by
        rw [List.append_assoc, List.singleton_append]
      have fresh : pair.1 ∉ names front := by
        rw [names, List.map_append, List.map_cons, List.nodup_append] at nodup
        intro member
        exact nodup.2.2 _ member _ List.mem_cons_self rfl
      rw [List.foldl_cons, insert_of_not_mem fresh, split]
      rw [split] at nodup
      exact induction nodup

theorem ofPairs_of_nodup {pairs : Fields α} (nodup : (names pairs).Nodup) :
    ofPairs pairs = pairs := by
  have fresh : (names ([] ++ pairs)).Nodup := nodup
  exact foldl_insert_of_nodup fresh

theorem nodup_insert {fields : Fields α} (nodup : (names fields).Nodup) (name : String)
    (value : α) : (names (insert name value fields)).Nodup := by
  rw [names_insert]
  split
  · exact nodup
  · rename_i fresh
    rw [List.nodup_append]
    refine ⟨nodup, List.nodup_cons.mpr ⟨List.not_mem_nil, List.nodup_nil⟩, ?_⟩
    rintro other member name single rfl
    exact fresh (List.mem_singleton.mp single ▸ member)

theorem nodup_foldl_insert (pairs : List (String × α)) {fields : Fields α}
    (nodup : (names fields).Nodup) :
    (names (pairs.foldl (fun fields pair => insert pair.1 pair.2 fields) fields)).Nodup := by
  induction pairs generalizing fields with
  | nil => exact nodup
  | cons pair rest induction => exact induction (nodup_insert nodup pair.1 pair.2)

theorem nodup_ofPairs (pairs : List (String × α)) : (names (ofPairs pairs)).Nodup :=
  nodup_foldl_insert pairs List.nodup_nil

theorem names_retain {σ : Type} (keep : σ → String → α → Option α × σ) (memory : σ)
    (fields : Fields α) : (names (retain keep memory fields)).Sublist (names fields) := by
  induction fields generalizing memory with
  | nil => exact List.Sublist.refl _
  | cons head rest induction =>
      rcases head with ⟨name, value⟩
      rw [retain]
      rcases keep memory name value with ⟨_ | kept, next⟩
      · exact (induction next).cons name
      · exact (induction next).cons_cons name

theorem insert_map {β : Type} (transform : α → β) (name : String) (value : α) (fields : Fields α) :
    insert name (transform value) (fields.map fun field => (field.1, transform field.2)) =
      (insert name value fields).map fun field => (field.1, transform field.2) := by
  induction fields with
  | nil => rfl
  | cons head rest induction =>
      rcases head with ⟨other, old⟩
      rw [List.map_cons, insert, insert]
      split
      · rfl
      · rw [induction]
        rfl

/-- Which pair a name takes its value from does not depend on the values. -/
theorem ofPairs_map {β : Type} (transform : α → β) (pairs : List (String × α)) :
    ofPairs (pairs.map fun pair => (pair.1, transform pair.2)) =
      (ofPairs pairs).map fun field => (field.1, transform field.2) := by
  have onward (fields : Fields α) :
      (pairs.map fun pair => (pair.1, transform pair.2)).foldl
          (fun fields pair => insert pair.1 pair.2 fields)
          (fields.map fun field => (field.1, transform field.2)) =
        (pairs.foldl (fun fields pair => insert pair.1 pair.2 fields) fields).map
          fun field => (field.1, transform field.2) := by
    induction pairs generalizing fields with
    | nil => rfl
    | cons pair rest induction =>
        have first := insert_map transform pair.1 pair.2 fields
        rw [List.map_cons, List.foldl_cons, List.foldl_cons, ← induction, ← first]
  exact onward []

/-! ## Where fields come from -/

theorem mem_names_insert {name other : String} {value : α} {fields : Fields α} :
    other ∈ names (insert name value fields) ↔ other = name ∨ other ∈ names fields := by
  rw [names_insert]
  split
  · rename_i there
    exact ⟨.inr, fun found => found.elim (fun same => same ▸ there) id⟩
  · rw [List.mem_append, List.mem_singleton, or_comm]

theorem isSome_get? {name : String} {fields : Fields α} :
    (get? name fields).isSome = true ↔ name ∈ names fields := by
  induction fields with
  | nil => exact iff_of_false Bool.false_ne_true List.not_mem_nil
  | cons head rest induction =>
      rcases head with ⟨other, value⟩
      rw [get?, names, List.map_cons, List.mem_cons]
      split
      · rename_i equal
        exact iff_of_true rfl (.inl equal.symm)
      · rename_i different
        rw [induction, names]
        exact ⟨.inr, fun found => found.resolve_left (Ne.symm different)⟩

theorem mem_of_get? {name : String} {value : α} {fields : Fields α}
    (found : get? name fields = some value) : (name, value) ∈ fields := by
  induction fields with
  | nil => cases found
  | cons head rest induction =>
      rcases head with ⟨other, old⟩
      rw [get?] at found
      split at found
      · rename_i equal
        cases found
        exact equal ▸ List.mem_cons_self
      · exact List.mem_cons_of_mem _ (induction found)

theorem mem_insert {field : String × α} {name : String} {value : α} {fields : Fields α}
    (member : field ∈ insert name value fields) : field = (name, value) ∨ field ∈ fields := by
  induction fields with
  | nil => exact .inl (List.mem_singleton.mp member)
  | cons head rest induction =>
      rcases head with ⟨other, old⟩
      rw [insert] at member
      split at member
      · rename_i equal
        subst equal
        rcases List.mem_cons.mp member with first | later
        · exact .inl first
        · exact .inr (List.mem_cons_of_mem _ later)
      · rcases List.mem_cons.mp member with rfl | later
        · exact .inr List.mem_cons_self
        · exact (induction later).imp_right (List.mem_cons_of_mem _)

theorem mem_foldl_insert {field : String × α} {pairs : List (String × α)} {fields : Fields α}
    (member : field ∈ pairs.foldl (fun fields pair => insert pair.1 pair.2 fields) fields) :
    field ∈ pairs ∨ field ∈ fields := by
  induction pairs generalizing fields with
  | nil => exact .inr member
  | cons pair rest induction =>
      rcases induction member with later | inserted
      · exact .inl (List.mem_cons_of_mem _ later)
      · rcases mem_insert inserted with rfl | old
        · exact .inl List.mem_cons_self
        · exact .inr old

theorem mem_of_mem_ofPairs {field : String × α} {pairs : List (String × α)}
    (member : field ∈ ofPairs pairs) : field ∈ pairs :=
  (mem_foldl_insert member).resolve_right List.not_mem_nil

/-! ## The last pair of a name -/

theorem get?_insert (name other : String) (value : α) (fields : Fields α) :
    get? other (insert name value fields) = if name = other then some value else get? other fields := by
  split
  · rename_i equal
    rw [← equal, get?_insert_self]
  · rename_i different
    exact get?_insert_of_ne value fields (Ne.symm different)

theorem get?_append (name : String) (front back : Fields α) :
    get? name (front ++ back) = (get? name front).or (get? name back) := by
  induction front with
  | nil => rfl
  | cons head rest induction =>
      rcases head with ⟨other, value⟩
      rw [List.cons_append, get?, get?, induction]
      split <;> rfl

theorem get?_eq_none {name : String} {fields : Fields α} (absent : name ∉ names fields) :
    get? name fields = none := by
  rw [← Option.not_isSome_iff_eq_none, isSome_get?]
  exact absent

/-- After pairs were inserted, a name has the value of its last pair, or else the one that it
had before. -/
theorem get?_foldl_insert (name : String) (pairs : List (String × α)) (fields : Fields α) :
    get? name (pairs.foldl (fun fields pair => insert pair.1 pair.2 fields) fields) =
      (get? name pairs.reverse).or (get? name fields) := by
  induction pairs generalizing fields with
  | nil => rfl
  | cons pair rest induction =>
      have last : (get? name [pair]).or (get? name fields) =
          get? name (insert pair.1 pair.2 fields) := by
        rw [get?_insert, get?]
        split <;> rfl
      rw [List.foldl_cons, induction, ← last, ← Option.or_assoc, ← get?_append, List.reverse_cons]

/-- Neighbours with different names may change places. -/
theorem get?_reverse_swap {first second : String × α} (different : first.1 ≠ second.1)
    (name : String) (before after : List (String × α)) :
    get? name (before ++ first :: second :: after).reverse =
      get? name (before ++ second :: first :: after).reverse := by
  have between (left right : String × α) : (before ++ left :: right :: after).reverse =
      after.reverse ++ ([right, left] ++ before.reverse) := by
    simp only [List.reverse_append, List.reverse_cons, List.append_assoc, List.cons_append,
      List.nil_append]
  have either : get? name [second, first] = get? name [first, second] := by
    simp only [get?]
    split
    · rename_i equal
      rw [if_neg fun same => different (same.trans equal.symm)]
    · rfl
  rw [between, between, get?_append, get?_append, get?_append, get?_append, either]

/-- Names that were not there before come behind the others, in the order of their first
pairs. -/
theorem names_foldl_insert (pairs : List (String × α)) (fields : Fields α) :
    names (pairs.foldl (fun fields pair => insert pair.1 pair.2 fields) fields) =
      names fields ++ ((names pairs).filter (· ∉ names fields)).eraseDups := by
  induction pairs generalizing fields with
  | nil => exact (List.append_nil _).symm
  | cons pair rest induction =>
      have cons : names (pair :: rest) = pair.1 :: names rest := rfl
      rw [List.foldl_cons, induction, names_insert, cons]
      by_cases there : pair.1 ∈ names fields
      · have kept : (pair.1 :: names rest).filter (· ∉ names fields) =
            (names rest).filter (· ∉ names fields) :=
          List.filter_cons_of_neg (by simpa using there)
        rw [if_pos there, kept]
      · have first : (pair.1 :: names rest).filter (· ∉ names fields) =
            pair.1 :: (names rest).filter (· ∉ names fields) :=
          List.filter_cons_of_pos (by simpa using there)
        have others : (names rest).filter (· ∉ names fields ++ [pair.1]) =
            ((names rest).filter (· ∉ names fields)).filter fun name => !(name == pair.1) := by
          rw [List.filter_filter]
          refine List.filter_congr fun name _ => ?_
          by_cases equal : name = pair.1 <;> simp [equal]
        rw [if_neg there, others, first, List.eraseDups_cons, List.append_assoc,
          List.singleton_append]

/-! ## Around a name -/

theorem insert_append (name : String) (value : α) (front rest : Fields α) :
    insert name value (front ++ rest) =
      if name ∈ names front then insert name value front ++ rest
      else front ++ insert name value rest := by
  induction front with
  | nil => simp [names]
  | cons head front induction =>
      rcases head with ⟨other, old⟩
      rw [List.cons_append, insert, insert, induction]
      by_cases equal : other = name
      · simp [names, equal]
      · by_cases member : name ∈ names front
        · simp [names, equal, show name ∈ front.map (·.1) from member]
        · simp [names, equal, Ne.symm equal, show name ∉ front.map (·.1) from member]

/-- Where a name stands among the fields does not depend on its value. -/
theorem exists_insert_eq (name : String) (fields : Fields α) :
    ∃ front back, name ∉ names front ∧
      ∀ value, insert name value fields = front ++ (name, value) :: back := by
  induction fields with
  | nil => exact ⟨[], [], List.not_mem_nil, fun _ => rfl⟩
  | cons head rest induction =>
      rcases head with ⟨other, old⟩
      by_cases equal : other = name
      · refine ⟨[], rest, List.not_mem_nil, fun value => ?_⟩
        rw [insert, if_pos equal, equal]
        rfl
      · rcases induction with ⟨front, back, fresh, inserted⟩
        refine ⟨(other, old) :: front, back, ?_, fun value => ?_⟩
        · exact fun member => (List.mem_cons.mp member).elim (Ne.symm equal) fresh
        · rw [insert, if_neg equal, inserted]
          rfl

/-- Nor do the fields around the last pair of a name. -/
theorem exists_ofPairs_eq (before : List (String × α)) {name : String}
    {after : List (String × α)} (last : name ∉ names after) :
    ∃ front back, name ∉ names front ∧
      ∀ value, ofPairs (before ++ (name, value) :: after) = front ++ (name, value) :: back := by
  have onward (front back : Fields α) (fresh : name ∉ names front) :
      ∃ front' back', name ∉ names front' ∧
        ∀ value, after.foldl (fun fields pair => insert pair.1 pair.2 fields)
          (front ++ (name, value) :: back) = front' ++ (name, value) :: back' := by
    induction after generalizing front back with
    | nil => exact ⟨front, back, fresh, fun _ => rfl⟩
    | cons pair rest induction =>
        rcases pair with ⟨other, item⟩
        have differs : name ≠ other := fun equal => last (equal ▸ List.mem_cons_self)
        have later : name ∉ names rest := fun member => last (List.mem_cons_of_mem _ member)
        simp only [List.foldl_cons, insert_append, insert, if_neg differs]
        by_cases member : other ∈ names front
        · simp only [if_pos member]
          refine induction later _ _ ?_
          rwa [names_insert, if_pos member]
        · simp only [if_neg member]
          exact induction later _ _ fresh
  rcases exists_insert_eq name (ofPairs before) with ⟨front, back, fresh, inserted⟩
  rcases onward front back fresh with ⟨front', back', fresh', folded⟩
  refine ⟨front', back', fresh', fun value => ?_⟩
  rw [← folded, ← inserted, ofPairs, List.foldl_append, List.foldl_cons]
  rfl

theorem get?_of_split {name : String} {front : Fields α} (fresh : name ∉ names front) (value : α)
    (back : Fields α) : get? name (front ++ (name, value) :: back) = some value := by
  induction front with
  | nil => exact if_pos rfl
  | cons head rest induction =>
      rcases head with ⟨other, old⟩
      rw [names, List.map_cons, List.mem_cons, not_or] at fresh
      rw [List.cons_append, get?, if_neg (Ne.symm fresh.1), induction fresh.2]

theorem takeWhile_of_split {name : String} {front : Fields α} (fresh : name ∉ names front)
    (value : α) (back : Fields α) :
    (front ++ (name, value) :: back).takeWhile (·.1 ≠ name) = front := by
  have others : ∀ field ∈ front, decide (field.1 ≠ name) = true := by
    intro field member
    refine decide_eq_true ?_
    rintro rfl
    exact fresh (List.mem_map_of_mem member)
  rw [List.takeWhile_append_of_pos others, List.takeWhile_cons_of_neg (by simp), List.append_nil]

end DocShell.Fields
