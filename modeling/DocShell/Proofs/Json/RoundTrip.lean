import DocShell.Json.Writing
import DocShell.Proofs.Json.Source

namespace DocShell.Json

/-! # Compact JSON text read back

The text of a string, and of containers around texts that are read back, is
read back. Numbers are left to whoever uses this. -/

open Text

def ReadsAs (room : Nat) (text : List Char) (json : Json) : Prop :=
  ∃ source : Source, source.Spells text ∧ source.json? room = some json

theorem quotes_quoted (text : String) : Source.Quotes text (quoted text) :=
  ⟨text.toList.flatMap escaped, spelledText_flatMap_escaped text.toList, rfl⟩

theorem readsAs_string (room : Nat) (text : String) : ReadsAs room (quoted text) (.string text) :=
  ⟨.string text, quotes_quoted text, rfl⟩

theorem padded_of_form {form : List Char → Prop} {text : List Char} (formed : form text) :
    Source.Padded form text :=
  ⟨[], text, [], nofun, formed, nofun, (List.append_nil text).symm⟩

theorem joined_cons (separator part second : List Char) (parts : List (List Char)) :
    joined separator (part :: second :: parts) =
      part ++ (separator ++ joined separator (second :: parts)) := by
  rw [joined, List.append_assoc]
  exact List.cons_ne_nil second parts

theorem enclosed_compact (opening closing : Char) (parts : List (List Char)) :
    enclosed opening closing (.oneLine [] [',']) parts =
      opening :: (joined [','] parts ++ [closing]) := by
  rw [enclosed]
  split
  · rename_i empty
    rw [empty]
    rfl
  · simp [Spacing.oneLine]

/-! ## Arrays -/

inductive ReadEach (room : Nat) : List (List Char) → List Json → Prop
  | nil : ReadEach room [] []
  | cons {text : List Char} {json : Json} {texts : List (List Char)} {items : List Json}
      (first : ReadsAs room text json) (later : ReadEach room texts items) :
      ReadEach room (text :: texts) (json :: items)

theorem ReadEach.exists_sources {room : Nat} {texts : List (List Char)} {items : List Json}
    (each : ReadEach room texts items) :
    ∃ sources, Source.SpellsItems sources (joined [','] texts) ∧
      Source.jsonItems? room sources = some items ∧ (sources = [] ↔ texts = []) := by
  induction each with
  | nil => exact ⟨[], nofun, rfl, iff_of_true rfl rfl⟩
  | @cons text json texts items first later induction =>
      rcases first with ⟨source, spelled, denotes⟩
      rcases induction with ⟨sources, others, all, empty⟩
      refine ⟨source :: sources, ⟨text, padded_of_form spelled, ?_⟩, ?_, by simp⟩
      · cases texts with
        | nil => exact .inl ⟨empty.mpr rfl, rfl⟩
        | cons second texts =>
            have filled : sources ≠ [] := fun nothing => List.cons_ne_nil _ _ (empty.mp nothing)
            exact .inr ⟨filled, _, others, joined_cons [','] text second texts⟩
      · rw [Source.jsonItems?, denotes, Option.bind_some, all]
        rfl

theorem readsAs_array {room : Nat} {texts : List (List Char)} {items : List Json}
    (each : ReadEach room texts items) :
    ReadsAs (room + 1) (enclosed '[' ']' (.oneLine [] [',']) texts) (.array items) := by
  rcases each.exists_sources with ⟨sources, spelled, denotes, _⟩
  refine ⟨.array sources, ⟨_, spelled, enclosed_compact '[' ']' texts⟩, ?_⟩
  rw [Source.json?, if_neg (Nat.succ_ne_zero room), Nat.add_sub_cancel, denotes]
  rfl

/-! ## Objects -/

inductive ReadMembers (room : Nat) : List (List Char) → List (String × Json) → Prop
  | nil : ReadMembers room [] []
  | cons (name : String) {text : List Char} {json : Json} {texts : List (List Char)}
      {members : List (String × Json)} (first : ReadsAs room text json)
      (later : ReadMembers room texts members) :
      ReadMembers room ((quoted name ++ ':' :: text) :: texts) ((name, json) :: members)

theorem ReadMembers.exists_sources {room : Nat} {texts : List (List Char)}
    {members : List (String × Json)} (each : ReadMembers room texts members) :
    ∃ sources, Source.SpellsMembers sources (joined [','] texts) ∧
      Source.jsonMembers? room sources = some members ∧ (sources = [] ↔ texts = []) := by
  induction each with
  | nil => exact ⟨[], nofun, rfl, iff_of_true rfl rfl⟩
  | @cons name text json texts members first later induction =>
      rcases first with ⟨source, spelled, denotes⟩
      rcases induction with ⟨sources, others, all, empty⟩
      refine ⟨(name, source) :: sources, ⟨quoted name, text, padded_of_form (quotes_quoted name),
        padded_of_form spelled, ?_⟩, ?_, by simp⟩
      · cases texts with
        | nil => exact .inl ⟨empty.mpr rfl, rfl⟩
        | cons second texts =>
            have filled : sources ≠ [] := fun nothing => List.cons_ne_nil _ _ (empty.mp nothing)
            exact .inr ⟨filled, _, others, joined_cons [','] _ second texts⟩
      · rw [Source.jsonMembers?, denotes, Option.bind_some, all]
        rfl

theorem readsAs_members {room : Nat} {texts : List (List Char)} {members : List (String × Json)}
    (each : ReadMembers room texts members) :
    ReadsAs (room + 1) (enclosed '{' '}' (.oneLine [] [',']) texts)
      (.object (Fields.ofPairs members)) := by
  rcases each.exists_sources with ⟨sources, spelled, denotes, _⟩
  refine ⟨.object sources, ⟨_, spelled, enclosed_compact '{' '}' texts⟩, ?_⟩
  rw [Source.json?, if_neg (Nat.succ_ne_zero room), Nat.add_sub_cancel, denotes]
  rfl

theorem readsAs_object {room : Nat} {texts : List (List Char)} {members : List (String × Json)}
    (each : ReadMembers room texts members) (nodup : (Fields.names members).Nodup) :
    ReadsAs (room + 1) (enclosed '{' '}' (.oneLine [] [',']) texts) (.object members) := by
  have reads := readsAs_members each
  rwa [Fields.ofPairs_of_nodup nodup] at reads

/-! ## Texts as a whole -/

theorem parse?_of_readsAs {text : List Char} {json : Json}
    (reads : ReadsAs depthLimit text json) : parse? (String.ofList text) = some json := by
  rcases reads with ⟨source, spelled, denotes⟩
  have written : source.WrittenAs (String.ofList text) := by
    rw [Source.WrittenAs, String.toList_ofList]
    exact padded_of_form spelled
  rw [Source.parse?_of_writtenAs written, denotes]

end DocShell.Json
