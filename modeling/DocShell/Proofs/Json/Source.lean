import DocShell.Proofs.Fields
import DocShell.Proofs.Json.Spelling
import DocShell.Proofs.Json.Strings

namespace DocShell.Json

/-! # JSON as it is written

A source keeps what reading leaves behind: how numbers are spelled, and members whose name
comes again. Its texts are those of the grammar, with blanks between any two of its symbols
and strings in all of their spellings. A text is read as what its source denotes, or is
refused with it. -/

inductive Source
  | null
  | bool (value : Bool)
  | number (negative : Bool) (spelling : Spelling)
  | string (text : String)
  | array (items : List Source)
  | object (members : List (String × Source))

namespace Source

theorem induction {motive : Source → Prop} (null : motive .null)
    (bool : ∀ value, motive (.bool value))
    (number : ∀ negative spelling, motive (.number negative spelling))
    (string : ∀ text, motive (.string text))
    (array : ∀ items, (∀ item ∈ items, motive item) → motive (.array items))
    (object : ∀ members, (∀ member ∈ members, motive member.2) → motive (.object members))
    (source : Source) : motive source := by
  refine @Source.rec motive (fun items => ∀ item ∈ items, motive item)
    (fun members => ∀ member ∈ members, motive member.2) (fun member => motive member.2)
    null bool number string array object ?_ ?_ ?_ ?_ (fun _ _ => id) source
  · intro item member
    cases member
  · intro head rest first later item member
    rcases List.mem_cons.mp member with rfl | inner
    · exact first
    · exact later item inner
  · intro field member
    cases member
  · intro head rest first later field member
    rcases List.mem_cons.mp member with rfl | inner
    · exact first
    · exact later field inner

/-! ## What is denoted -/

mutual

/-- The JSON that is denoted, unless containers nest deeper than there is room for or a number
lies beyond the doubles. -/
def json? : Nat → Source → Option Json
  | _, .null => some .null
  | _, .bool value => some (.bool value)
  | _, .number negative spelling => ofSpelling? negative spelling
  | _, .string text => some (.string text)
  | room, .array items => if room = 0 then none else (jsonItems? (room - 1) items).map .array
  | room, .object members =>
      if room = 0 then none
      else (jsonMembers? (room - 1) members).map fun pairs => .object (Fields.ofPairs pairs)

def jsonItems? : Nat → List Source → Option (List Json)
  | _, [] => some []
  | room, item :: rest => (json? room item).bind fun json =>
      (jsonItems? room rest).map fun others => json :: others

def jsonMembers? : Nat → List (String × Source) → Option (List (String × Json))
  | _, [] => some []
  | room, (name, source) :: rest => (json? room source).bind fun json =>
      (jsonMembers? room rest).map fun others => (name, json) :: others

end

/-! ## What is written -/

def Blanks (text : List Char) : Prop := ∀ character ∈ text, isBlank character = true

def Padded (form : List Char → Prop) (text : List Char) : Prop :=
  ∃ front core back, Blanks front ∧ form core ∧ Blanks back ∧ text = front ++ (core ++ back)

def Quotes (value : String) (text : List Char) : Prop :=
  ∃ spelled, Text.SpelledText value.toList spelled ∧ text = '"' :: (spelled ++ ['"'])

def Continued (isLast : Prop) (form : List Char → Prop) (first text : List Char) : Prop :=
  isLast ∧ text = first ∨ ¬isLast ∧ ∃ later, form later ∧ text = first ++ ',' :: later

mutual

def Spells : Source → List Char → Prop
  | .null, text => text = "null".toList
  | .bool value, text => text = (if value then "true" else "false").toList
  | .number negative spelling, text =>
      spelling.Sound ∧ spelling.fraction ≠ some [] ∧ text = signedText negative spelling
  | .string value, text => Quotes value text
  | .array items, text => ∃ inner, SpellsItems items inner ∧ text = '[' :: (inner ++ [']'])
  | .object members, text => ∃ inner, SpellsMembers members inner ∧ text = '{' :: (inner ++ ['}'])

def SpellsItems : List Source → List Char → Prop
  | [], text => Blanks text
  | item :: rest, text => ∃ first, Padded (fun core => Spells item core) first ∧
      Continued (rest = []) (fun later => SpellsItems rest later) first text

def SpellsMembers : List (String × Source) → List Char → Prop
  | [], text => Blanks text
  | (name, source) :: rest, text => ∃ label first, Padded (Quotes name) label ∧
      Padded (fun core => Spells source core) first ∧
      Continued (rest = []) (fun later => SpellsMembers rest later) (label ++ ':' :: first) text

end

def WrittenAs (source : Source) (text : String) : Prop := Padded source.Spells text.toList

/-! ## Blanks -/

theorem skipBlanks_append {front : List Char} (blank : Blanks front) (text : List Char) :
    skipBlanks (front ++ text) = skipBlanks text :=
  List.dropWhile_append_of_pos blank

theorem ends_append {back rest : List Char} (blank : Blanks back) (ends : Ends rest) :
    Ends (back ++ rest) := by
  intro character first
  cases back with
  | nil => exact ends character first
  | cons start more =>
      cases first
      exact .inl (blank _ List.mem_cons_self)

theorem outcome_value?_full {text inner : List Char} {opening : Char}
    (opens : skipBlanks text = opening :: inner) (container : opening = '[' ∨ opening = '{') :
    outcome (value? 0 text) = none := by
  rw [value?]
  split
  · rfl
  · rfl
  · rename_i noArray noObject
    rcases container with rfl | rfl
    · exact absurd opens (noArray _)
    · exact absurd opens (noObject _)

theorem outcome_value?_empty (room : Nat) {text : List Char} (empty : skipBlanks text = []) :
    outcome (value? room text) = none := by
  rw [value?]
  split
  · rename_i behind equal
    cases empty.symm.trans equal
  · rename_i behind equal
    cases empty.symm.trans equal
  · rw [outcome_widen, empty]
    rfl

/-- Blanks in front of a value do not change what is read. -/
theorem outcome_value?_of_skipBlanks (room : Nat) {text other : List Char}
    (same : skipBlanks text = skipBlanks other) :
    outcome (value? room text) = outcome (value? room other) := by
  cases start : skipBlanks other with
  | nil => rw [outcome_value?_empty room (same.trans start), outcome_value?_empty room start]
  | cons first more =>
      have start' := same.trans start
      by_cases isArray : first = '['
      · subst isArray
        cases room with
        | zero => rw [outcome_value?_full start' (.inl rfl), outcome_value?_full start (.inl rfl)]
        | succ room =>
            rw [outcome_value?_array room start', outcome_value?_array room start]
      by_cases isObject : first = '{'
      · subst isObject
        cases room with
        | zero => rw [outcome_value?_full start' (.inr rfl), outcome_value?_full start (.inr rfl)]
        | succ room =>
            rw [outcome_value?_object room start', outcome_value?_object room start]
      · rw [outcome_value?_scalar room start' isArray isObject,
          outcome_value?_scalar room start isArray isObject]

/-! ## What is read -/

/-- The texts of a source are read as what it denotes, or are refused with it. -/
def IsRead (source : Source) : Prop :=
  ∀ room text rest, source.Spells text → Ends rest →
    outcome (value? room (text ++ rest)) = (source.json? room).map fun json => (json, rest)

/-- No text of a source begins like the end of a container. -/
theorem exists_start {source : Source} {text : List Char} (spelled : source.Spells text) :
    ∃ first more, text = first :: more ∧ isBlank first = false ∧ first ≠ ']' := by
  cases source with
  | null => exact ⟨'n', _, spelled, by decide, by decide⟩
  | bool value =>
      cases value with
      | true => exact ⟨'t', _, spelled, by decide, by decide⟩
      | false => exact ⟨'f', _, spelled, by decide, by decide⟩
  | number negative spelling =>
      rcases spelled with ⟨sound, _, rfl⟩
      rcases signedText_start negative sound with ⟨first, more, equal, dark, noClose, _⟩
      exact ⟨first, more, equal, dark, noClose⟩
  | string value =>
      rcases spelled with ⟨spelled, _, rfl⟩
      exact ⟨'"', _, rfl, by decide, by decide⟩
  | array items =>
      rcases spelled with ⟨inner, _, rfl⟩
      exact ⟨'[', _, rfl, by decide, by decide⟩
  | object members =>
      rcases spelled with ⟨inner, _, rfl⟩
      exact ⟨'{', _, rfl, by decide, by decide⟩

/-- What is left behind a text with blanks around it is what comes next, but for blanks. -/
theorem IsRead.exists_behind {source : Source} (read : source.IsRead) (room : Nat)
    {text : List Char} (padded : Padded source.Spells text) {rest : List Char}
    (ends : Ends rest) :
    ∃ behind, skipBlanks behind = skipBlanks rest ∧
      outcome (value? room (text ++ rest)) =
        (source.json? room).map fun json => (json, behind) := by
  rcases padded with ⟨front, core, back, blankFront, spelled, blankBack, rfl⟩
  have same : skipBlanks (front ++ (core ++ back) ++ rest) =
      skipBlanks (core ++ (back ++ rest)) := by
    rw [List.append_assoc, List.append_assoc, skipBlanks_append blankFront]
  refine ⟨back ++ rest, skipBlanks_append blankBack rest, ?_⟩
  rw [outcome_value?_of_skipBlanks room same,
    read room core _ spelled (ends_append blankBack ends)]

/-! ### Arrays -/

theorem outcome_items?_spelled {room : Nat} {items : List Source} (filled : items ≠ [])
    (each : ∀ item ∈ items, IsRead item) {text : List Char} (spelled : SpellsItems items text)
    (rest : List Char) :
    outcome (items? (value? room) (text ++ ']' :: rest)) =
      (jsonItems? room items).map fun jsons => (jsons, rest) := by
  induction items generalizing text with
  | nil => exact absurd rfl filled
  | cons item more induction =>
      have here := each item List.mem_cons_self
      rw [SpellsItems] at spelled
      rcases spelled with ⟨first, padded, ⟨rfl, rfl⟩ | ⟨notLast, later, spelled, rfl⟩⟩
      · rcases here.exists_behind room padded (ends_cons (.inr (.inl rfl)) rest) with
          ⟨behind, same, read⟩
        rw [outcome_items?, read, jsonItems?, jsonItems?]
        cases item.json? room with
        | none => rfl
        | some json =>
            simp only [Option.map_some, Option.bind_some, same,
              skipBlanks_cons (by decide : isBlank ']' = false)]
      · have onward := induction notLast (fun other member =>
          each other (List.mem_cons_of_mem _ member)) spelled
        rcases here.exists_behind room padded (ends_cons (.inl rfl) (later ++ ']' :: rest)) with
          ⟨behind, same, read⟩
        rw [List.append_assoc, List.cons_append, outcome_items?, read, jsonItems?]
        cases item.json? room with
        | none => rfl
        | some json =>
            simp only [Option.map_some, Option.bind_some, same,
              skipBlanks_cons (by decide : isBlank ',' = false), onward]
            cases jsonItems? room more <;> rfl

theorem exists_start_items {item : Source} {more : List Source} {text : List Char}
    (spelled : SpellsItems (item :: more) text) (rest : List Char) :
    ∃ first behind, skipBlanks (text ++ rest) = first :: behind ∧ first ≠ ']' := by
  have opens {first : List Char} (padded : Padded item.Spells first) (rest : List Char) :
      ∃ start behind, skipBlanks (first ++ rest) = start :: behind ∧ start ≠ ']' := by
    rcases padded with ⟨front, core, back, blank, spelled, _, rfl⟩
    rcases exists_start spelled with ⟨start, behind, rfl, dark, noClose⟩
    refine ⟨start, behind ++ (back ++ rest), ?_, noClose⟩
    rw [List.append_assoc, List.append_assoc, skipBlanks_append blank, List.cons_append,
      skipBlanks_cons dark]
  rw [SpellsItems] at spelled
  rcases spelled with ⟨first, padded, ⟨_, rfl⟩ | ⟨_, later, _, rfl⟩⟩
  · exact opens padded rest
  · rw [List.append_assoc]
    exact opens padded _

theorem isRead_array {items : List Source} (each : ∀ item ∈ items, IsRead item) :
    IsRead (.array items) := by
  rintro room text rest ⟨inner, spelled, rfl⟩ ends
  have opens : skipBlanks ('[' :: (inner ++ [']']) ++ rest) = '[' :: (inner ++ ']' :: rest) := by
    rw [List.cons_append, List.append_assoc, skipBlanks_cons (by decide)]
    rfl
  rw [json?]
  cases room with
  | zero => rw [outcome_value?_full opens (.inl rfl), if_pos rfl, Option.map_none]
  | succ room =>
      rw [outcome_value?_array room opens, if_neg (Nat.succ_ne_zero room), Nat.add_sub_cancel]
      cases items with
      | nil =>
          rw [SpellsItems] at spelled
          rw [skipBlanks_append spelled, skipBlanks_cons (by decide), jsonItems?]
          rfl
      | cons item more =>
          rcases exists_start_items spelled (']' :: rest) with ⟨first, behind, start, noClose⟩
          rw [start, outcome_items?_spelled (List.cons_ne_nil item more) each spelled]
          split
          · rename_i closed
            cases closed
            exact absurd rfl noClose
          · cases jsonItems? room (item :: more) <;> rfl

/-! ### Objects -/

theorem outcome_name?_label {name : String} {label : List Char} (padded : Padded (Quotes name) label)
    (rest : List Char) : outcome (name? (label ++ ':' :: rest)) = some (name, rest) := by
  rcases padded with ⟨front, core, back, blankFront, ⟨spelled, each, rfl⟩, blankBack, rfl⟩
  have text : front ++ ('"' :: (spelled ++ ['"']) ++ back) ++ ':' :: rest =
      front ++ '"' :: (spelled ++ '"' :: (back ++ ':' :: rest)) := by simp
  rw [text, outcome_name?, skipBlanks_append blankFront, skipBlanks_cons (by decide)]
  simp only [stringBody?_spelledText each, Option.bind_some, skipBlanks_append blankBack,
    skipBlanks_cons (by decide : isBlank ':' = false), String.ofList_toList]

theorem outcome_members?_spelled {room : Nat} {members : List (String × Source)}
    (filled : members ≠ []) (each : ∀ member ∈ members, IsRead member.2) {text : List Char}
    (spelled : SpellsMembers members text) (rest : List Char) :
    outcome (Json.members? (value? room) (text ++ '}' :: rest)) =
      (jsonMembers? room members).map fun pairs => (pairs, rest) := by
  induction members generalizing text with
  | nil => exact absurd rfl filled
  | cons member more induction =>
      rcases member with ⟨name, source⟩
      have here := each (name, source) List.mem_cons_self
      rw [SpellsMembers] at spelled
      rcases spelled with
        ⟨label, first, named, padded, ⟨rfl, rfl⟩ | ⟨notLast, later, spelled, rfl⟩⟩
      · rcases here.exists_behind room padded (ends_cons (.inr (.inr rfl)) rest) with
          ⟨behind, same, read⟩
        rw [List.append_assoc, List.cons_append, outcome_members?, outcome_name?_label named,
          Option.bind_some]
        simp only [read]
        rw [jsonMembers?, jsonMembers?]
        cases source.json? room with
        | none => rfl
        | some json =>
            simp only [Option.map_some, Option.bind_some, same,
              skipBlanks_cons (by decide : isBlank '}' = false)]
      · have onward := induction notLast (fun other member =>
          each other (List.mem_cons_of_mem _ member)) spelled
        rcases here.exists_behind room padded (ends_cons (.inl rfl) (later ++ '}' :: rest)) with
          ⟨behind, same, read⟩
        rw [List.append_assoc, List.append_assoc, List.cons_append, List.cons_append,
          outcome_members?, outcome_name?_label named, Option.bind_some]
        simp only [read]
        rw [jsonMembers?]
        cases source.json? room with
        | none => rfl
        | some json =>
            simp only [Option.map_some, Option.bind_some, same,
              skipBlanks_cons (by decide : isBlank ',' = false), onward]
            cases jsonMembers? room more <;> rfl

theorem exists_start_members {member : String × Source} {more : List (String × Source)}
    {text : List Char} (spelled : SpellsMembers (member :: more) text) (rest : List Char) :
    ∃ behind, skipBlanks (text ++ rest) = '"' :: behind := by
  rcases member with ⟨name, source⟩
  have opens {label : List Char} (named : Padded (Quotes name) label) (rest : List Char) :
      ∃ behind, skipBlanks (label ++ rest) = '"' :: behind := by
    rcases named with ⟨front, core, back, blank, ⟨spelled, _, rfl⟩, _, rfl⟩
    refine ⟨spelled ++ ['"'] ++ (back ++ rest), ?_⟩
    rw [List.append_assoc, List.append_assoc, skipBlanks_append blank, List.cons_append,
      skipBlanks_cons (by decide)]
  rw [SpellsMembers] at spelled
  rcases spelled with ⟨label, first, named, _, ⟨_, rfl⟩ | ⟨_, later, _, rfl⟩⟩
  · rw [List.append_assoc]
    exact opens named _
  · rw [List.append_assoc, List.append_assoc]
    exact opens named _

theorem isRead_object {members : List (String × Source)}
    (each : ∀ member ∈ members, IsRead member.2) : IsRead (.object members) := by
  rintro room text rest ⟨inner, spelled, rfl⟩ ends
  have opens : skipBlanks ('{' :: (inner ++ ['}']) ++ rest) = '{' :: (inner ++ '}' :: rest) := by
    rw [List.cons_append, List.append_assoc, skipBlanks_cons (by decide)]
    rfl
  rw [json?]
  cases room with
  | zero => rw [outcome_value?_full opens (.inr rfl), if_pos rfl, Option.map_none]
  | succ room =>
      rw [outcome_value?_object room opens, if_neg (Nat.succ_ne_zero room), Nat.add_sub_cancel]
      cases members with
      | nil =>
          rw [SpellsMembers] at spelled
          rw [skipBlanks_append spelled, skipBlanks_cons (by decide), jsonMembers?]
          rfl
      | cons member more =>
          rcases exists_start_members spelled ('}' :: rest) with ⟨behind, start⟩
          rw [start, outcome_members?_spelled (List.cons_ne_nil member more) each spelled]
          cases jsonMembers? room (member :: more) <;> rfl

/-! ### All of JSON -/

theorem outcome_scalar?_string (text : List Char) :
    outcome (scalar? ('"' :: text)) =
      (stringBody? text).map fun found => (.string (String.ofList found.1), found.2) := by
  simp only [scalar?]
  split
  · rename_i body rest found
    simp only [found]
    rfl
  · rename_i missing
    simp only [missing]
    rfl

theorem isRead (source : Source) : source.IsRead := by
  induction source using Source.induction with
  | null =>
      rintro room text rest rfl _
      exact outcome_value?_scalar room (skipBlanks_cons (by decide) _) (by decide) (by decide)
  | bool value =>
      rintro room text rest rfl _
      cases value <;>
        exact outcome_value?_scalar room (skipBlanks_cons (by decide) _) (by decide) (by decide)
  | number negative spelling =>
      rintro room text rest ⟨sound, filled, rfl⟩ ends
      rw [outcome_value?_number room negative sound filled ends, json?]
  | string value =>
      rintro room text rest ⟨spelled, each, rfl⟩ _
      rw [List.cons_append, List.append_assoc,
        outcome_value?_scalar room (skipBlanks_cons (by decide) _) (by decide) (by decide),
        outcome_scalar?_string, List.singleton_append, stringBody?_spelledText each, json?]
      simp only [Option.map_some, String.ofList_toList]
  | array items induction => exact isRead_array induction
  | object members induction => exact isRead_object induction

/-- Text with blanks around it is read as what its source denotes, or is refused with it. -/
theorem parse?_of_writtenAs {source : Source} {text : String} (written : source.WrittenAs text) :
    parse? text = source.json? depthLimit := by
  have ends : Ends [] := by
    intro character member
    cases member
  rcases source.isRead.exists_behind depthLimit written ends with ⟨behind, blank, read⟩
  rw [List.append_nil, outcome] at read
  rw [parse?, front?, read]
  cases source.json? depthLimit with
  | none => rfl
  | some json => exact if_pos blank

end Source

end DocShell.Json
