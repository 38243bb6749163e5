import DocShell.Json.Reading

namespace DocShell.Json

/-! # What the readers of JSON find

The equations of the readers without the bound on the rest that they carry along. -/

def outcome {ι : Type} {bound : Nat} (result : Option (Taken ι Char bound)) :
    Option (ι × List Char) :=
  result.map fun taken => (taken.item, taken.rest)

section

variable {ι κ : Type} {bound larger : Nat}

theorem outcome_some (taken : Taken ι Char bound) :
    outcome (some taken) = some (taken.item, taken.rest) := rfl

theorem outcome_widen (result : Option (Taken ι Char bound)) (fits : bound ≤ larger) :
    outcome (result.map (·.widen fits)) = outcome result := by
  cases result <;> rfl

theorem outcome_map_widen (result : Option (Taken ι Char bound)) (transform : ι → κ)
    (fits : bound ≤ larger) :
    outcome (result.map fun taken => (taken.map transform).widen fits) =
      (outcome result).map fun found => (transform found.1, found.2) := by
  cases result <;> rfl

end

/-! ## Lists -/

section

variable (read : (text : List Char) → Option (Taken Json Char text.length))

theorem outcome_items? (text : List Char) :
    outcome (items? read text) = (outcome (read text)).bind fun (item, rest) =>
      match skipBlanks rest with
      | ']' :: behind => some ([item], behind)
      | ',' :: behind => (outcome (items? read behind)).map fun (more, rest) => (item :: more, rest)
      | _ => none := by
  rw [items?]
  cases read text with
  | none => rfl
  | some taken =>
      rcases taken with ⟨item, rest, shorter⟩
      rw [outcome_some, Option.bind_some]
      simp only
      split
      · rename_i behind equal
        simp only [equal]
        rfl
      · rename_i behind equal
        simp only [equal]
        exact outcome_map_widen _ _ _
      · rename_i noClose noComma
        split
        · exact (noClose _ ‹_›).elim
        · exact (noComma _ ‹_›).elim
        · rfl

theorem outcome_name? (text : List Char) :
    outcome (name? text) =
      match skipBlanks text with
      | '"' :: quoted => (stringBody? quoted).bind fun (body, rest) =>
          match skipBlanks rest with
          | ':' :: behind => some (String.ofList body, behind)
          | _ => none
      | _ => none := by
  rw [name?]
  split
  · rename_i quoted equal
    simp only [equal]
    split
    · rename_i body rest found
      simp only [found, Option.bind_some]
      split
      · rename_i behind colon
        simp only [colon]
        rfl
      · rename_i noColon
        split
        · exact (noColon _ ‹_›).elim
        · rfl
    · rename_i missing
      rw [missing]
      rfl
  · rename_i noQuote
    split
    · exact (noQuote _ ‹_›).elim
    · rfl

theorem outcome_members? (text : List Char) :
    outcome (members? read text) = (outcome (name? text)).bind fun (name, value) =>
      (outcome (read value)).bind fun (item, rest) =>
        match skipBlanks rest with
        | '}' :: behind => some ([(name, item)], behind)
        | ',' :: behind => (outcome (members? read behind)).map fun (more, rest) =>
            ((name, item) :: more, rest)
        | _ => none := by
  rw [members?]
  cases name? text with
  | none => rfl
  | some taken =>
      rcases taken with ⟨name, value, named⟩
      rw [outcome_some, Option.bind_some]
      simp only
      cases read value with
      | none => rfl
      | some taken =>
          rcases taken with ⟨item, rest, shorter⟩
          rw [outcome_some, Option.bind_some]
          simp only
          split
          · rename_i behind equal
            simp only [equal]
            rfl
          · rename_i behind equal
            simp only [equal]
            exact outcome_map_widen _ _ _
          · rename_i noClose noComma
            split
            · exact (noClose _ ‹_›).elim
            · exact (noComma _ ‹_›).elim
            · rfl

end

/-! ## Values -/

theorem outcome_value?_array (room : Nat) {text inner : List Char}
    (opens : skipBlanks text = '[' :: inner) :
    outcome (value? (room + 1) text) =
      match skipBlanks inner with
      | ']' :: rest => some (.array [], rest)
      | _ => (outcome (items? (value? room) inner)).map fun (items, rest) =>
          (.array items, rest) := by
  rw [value?]
  split
  · rename_i behind equal
    cases opens.symm.trans equal
    simp only
    split
    · rename_i rest closed
      simp only [closed]
      rfl
    · rename_i noClose
      split
      · exact (noClose _ ‹_›).elim
      · exact outcome_map_widen _ _ _
  · rename_i behind equal
    cases opens.symm.trans equal
  · rename_i noArray _
    exact (noArray _ opens).elim

theorem outcome_value?_object (room : Nat) {text inner : List Char}
    (opens : skipBlanks text = '{' :: inner) :
    outcome (value? (room + 1) text) =
      match skipBlanks inner with
      | '}' :: rest => some (.object [], rest)
      | _ => (outcome (members? (value? room) inner)).map fun (pairs, rest) =>
          (.object (Fields.ofPairs pairs), rest) := by
  rw [value?]
  split
  · rename_i behind equal
    cases opens.symm.trans equal
  · rename_i behind equal
    cases opens.symm.trans equal
    simp only
    split
    · rename_i rest closed
      simp only [closed]
      rfl
    · rename_i noClose
      split
      · exact (noClose _ ‹_›).elim
      · exact outcome_map_widen _ _ _
  · rename_i noObject
    exact (noObject _ opens).elim

theorem outcome_value?_scalar (room : Nat) {text : List Char} {first : Char} {rest : List Char}
    (starts : skipBlanks text = first :: rest) (noArray : first ≠ '[') (noObject : first ≠ '{') :
    outcome (value? room text) = outcome (scalar? (first :: rest)) := by
  rw [value?, ← starts]
  split
  · rename_i behind equal
    cases starts.symm.trans equal
    exact absurd rfl noArray
  · rename_i behind equal
    cases starts.symm.trans equal
    exact absurd rfl noObject
  · exact outcome_widen _ _

end DocShell.Json
