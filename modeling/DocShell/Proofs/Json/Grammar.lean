import DocShell.Proofs.Json.Depth
import DocShell.Proofs.Json.Source

namespace DocShell

/-! # The grammar of JSON

Whatever text is read has a source. So the grammar has every text that the reader accepts,
and the reader every text of the grammar whose source denotes something. -/

/-! ## Numbers -/

namespace Numeral

theorem exists_fraction (text : List Char) :
    ∃ fraction : Option (List Char), (∀ digits ∈ fraction, ∀ digit ∈ digits, digit.isDigit = true) ∧
      takeFraction text = (fraction.getD [], (takeFraction text).2) ∧
      text = Spelling.fractionText ⟨[], fraction, none⟩ ++ (takeFraction text).2 ∧
      (fraction.isSome = true → text.head? = some '.') := by
  unfold takeFraction
  split
  · rename_i behind
    refine ⟨some (takeDigits behind).1, ?_, rfl, ?_, fun _ => rfl⟩
    · intro digits member
      cases member
      exact List.all_eq_true.mp List.all_takeWhile
    · exact congrArg (List.cons '.') (takeDigits_append behind).symm
  · exact ⟨none, nofun, rfl, rfl, nofun⟩

theorem exists_exponentSpelling {mark : Char} (isMark : mark = 'e' ∨ mark = 'E')
    (sign : Option Sign) {text digits rest : List Char} (parts : takeDigits text = (digits, rest))
    (nonempty : digits ≠ []) :
    ∃ exponent : ExponentSpelling, exponent.Sound ∧
      exponent.power = (if sign = some .minus then -(Text.natOfDigits digits : Int)
        else Text.natOfDigits digits) ∧
      mark :: ((sign.map Sign.character).toList ++ text) = exponent.text ++ rest := by
  have allDigits : ∀ digit ∈ (takeDigits text).1, digit.isDigit = true :=
    List.all_eq_true.mp List.all_takeWhile
  have whole := takeDigits_append text
  rw [parts] at allDigits whole
  refine ⟨⟨mark, sign, digits⟩, ⟨isMark, nonempty, allDigits⟩, rfl, ?_⟩
  rw [← whole, ExponentSpelling.text, List.cons_append, List.append_assoc]

theorem exists_exponentDigits {text rest : List Char} {power : Int}
    (taken : takeExponentDigits text = some (power, rest)) {mark : Char}
    (isMark : mark = 'e' ∨ mark = 'E') :
    ∃ exponent : ExponentSpelling, exponent.Sound ∧ exponent.power = power ∧
      mark :: text = exponent.text ++ rest := by
  simp only [takeExponentDigits] at taken
  split at taken
  · split at taken
    · cases taken
    · rename_i digits behind nonempty parts
      cases taken
      exact exists_exponentSpelling isMark (some .minus) parts nonempty
  · split at taken
    · cases taken
    · rename_i digits behind nonempty parts
      cases taken
      exact exists_exponentSpelling isMark (some .plus) parts nonempty
  · split at taken
    · cases taken
    · rename_i digits behind nonempty parts
      cases taken
      exact exists_exponentSpelling isMark none parts nonempty

theorem exists_exponent {text rest : List Char} {power : Int}
    (taken : takeExponent text = some (power, rest)) :
    ∃ exponent : ExponentSpelling, exponent.Sound ∧ exponent.power = power ∧
      text = exponent.text ++ rest := by
  unfold takeExponent at taken
  split at taken
  · exact exists_exponentDigits taken (.inl rfl)
  · exact exists_exponentDigits taken (.inr rfl)
  · cases taken

/-- What is taken behind the digits before the point spells itself out. -/
theorem exists_spelling (whole text : List Char) :
    ∃ spelling : Spelling, spelling.whole = whole ∧
      (∀ digits ∈ spelling.fraction, ∀ digit ∈ digits, digit.isDigit = true) ∧
      (∀ exponent ∈ spelling.exponent, exponent.Sound) ∧
      takeTail whole text = (spelling.numeral, (takeTail whole text).2) ∧
      text = spelling.fractionText ++ (spelling.exponentText ++ (takeTail whole text).2) ∧
      (spelling.fraction.isSome = true → text.head? = some '.') := by
  rcases exists_fraction text with ⟨fraction, digits, front, parts, point⟩
  unfold takeTail
  rw [front]
  simp only
  split
  · rename_i power rest taken
    rcases exists_exponent taken with ⟨exponent, sound, rfl, behind⟩
    refine ⟨⟨whole, fraction, some exponent⟩, rfl, digits, ?_, rfl, ?_, point⟩
    · rintro _ ⟨⟩
      exact sound
    · rw [behind] at parts
      exact parts
  · exact ⟨⟨whole, fraction, none⟩, rfl, digits, nofun, rfl, parts, point⟩

end Numeral

namespace Json

/-- A number that is read has a spelling, and is what the spelling denotes. -/
theorem exists_spelling_of_unsigned? {negative : Bool} {text rest : List Char} {json : Json}
    (read : outcome (unsigned? negative text) = some (json, rest)) :
    ∃ spelling : Spelling, spelling.Sound ∧ spelling.fraction ≠ some [] ∧
      text = spelling.text ++ rest ∧ ofSpelling? negative spelling = some json := by
  rw [outcome_unsigned?] at read
  simp only at read
  have parts := Numeral.takeDigits_append text
  have digits : ∀ digit ∈ (Numeral.takeDigits text).1, digit.isDigit = true :=
    List.all_eq_true.mp List.all_takeWhile
  generalize Numeral.takeDigits text = found at read parts digits
  rcases found with ⟨whole, behind⟩
  rcases Numeral.exists_spelling whole behind with
    ⟨spelling, rfl, fractionDigits, exponentSound, taken, tail, point⟩
  rw [taken] at read
  generalize (Numeral.takeTail spelling.whole behind).2 = left at read tail
  split at read
  · cases read
  rename_i allowed
  simp only [not_or] at allowed
  rcases allowed with ⟨nonempty, leading, filled, _⟩
  rcases Option.map_eq_some_iff.mp read with ⟨made, number, equal⟩
  cases equal
  -- Whether the number is an integer is told by whether anything was taken behind its whole digits.
  have bare : rest = behind ↔ spelling.fraction = none ∧ spelling.exponent = none := by
    rw [tail]
    rcases spelling with ⟨whole, _ | fraction, _ | exponent⟩
    · exact iff_of_true rfl ⟨rfl, rfl⟩
    all_goals
      refine iff_of_false (fun same => ?_) (by simp)
      have lengths := congrArg List.length same
      simp only [Spelling.fractionText, Spelling.exponentText, ExponentSpelling.text,
        List.length_append, List.length_cons, List.length_nil] at lengths
      omega
  refine ⟨spelling, ⟨⟨digits, fractionDigits, exponentSound⟩, nonempty, fun zero => ?_⟩, ?_, ?_, ?_⟩
  · exact Classical.byContradiction fun other => leading ⟨zero, other⟩
  · intro empty
    exact filled ⟨point (by rw [empty]; rfl), by rw [Spelling.numeral, empty]; rfl⟩
  · rw [← parts, tail, Spelling.text, List.append_assoc, List.append_assoc]
  · rw [← number, ofSpelling?]
    simp only [bare]

namespace Source

/-! ## Values and what is behind them -/

theorem exists_blanks (text : List Char) : ∃ front, Blanks front ∧ text = front ++ skipBlanks text :=
  ⟨text.takeWhile isBlank, List.all_eq_true.mp List.all_takeWhile,
    List.takeWhile_append_dropWhile.symm⟩

def Starts (room : Nat) (text : List Char) (json : Json) (rest : List Char) : Prop :=
  ∃ (source : Source) (front core : List Char), Blanks front ∧ source.Spells core ∧
    text = front ++ (core ++ rest) ∧ source.json? room = some json

variable {room : Nat} {text rest : List Char} {json : Json}

/-- With what closes it or goes on, blanks in front of that included. -/
theorem Starts.exists_padded (starts : Starts room text json rest) :
    ∃ (source : Source) (first : List Char), Padded source.Spells first ∧
      text = first ++ skipBlanks rest ∧ source.json? room = some json := by
  rcases starts with ⟨source, front, core, blankFront, spelled, rfl, denotes⟩
  rcases exists_blanks rest with ⟨back, blankBack, whole⟩
  refine ⟨source, front ++ (core ++ back), ⟨front, core, back, blankFront, spelled, blankBack, rfl⟩,
    ?_, denotes⟩
  rw [List.append_assoc, List.append_assoc, ← whole]

theorem starts_of_spells {source : Source} {core : List Char} (spelled : source.Spells core)
    (start : skipBlanks text = core ++ rest) (denotes : source.json? room = some json) :
    Starts room text json rest := by
  rcases exists_blanks text with ⟨front, blank, whole⟩
  exact ⟨source, front, core, blank, spelled, start ▸ whole, denotes⟩

theorem starts_number (negative : Bool) {behind : List Char}
    (start : skipBlanks text = if negative then '-' :: behind else behind)
    (read : outcome (unsigned? negative behind) = some (json, rest)) :
    Starts room text json rest := by
  rcases exists_spelling_of_unsigned? read with ⟨spelling, sound, filled, rfl, denotes⟩
  have spells : (Source.number negative spelling).Spells (signedText negative spelling) :=
    ⟨sound, filled, rfl⟩
  refine starts_of_spells spells ?_ denotes
  rw [start, signedText]
  cases negative <;> rfl

theorem starts_scalar? {start : List Char} (begins : skipBlanks text = start)
    (read : outcome (scalar? start) = some (json, rest)) : Starts room text json rest := by
  unfold scalar? at read
  split at read
  · cases read
    have spells : Source.null.Spells "null".toList := rfl
    exact starts_of_spells spells begins rfl
  · cases read
    have spells : (Source.bool true).Spells "true".toList := rfl
    exact starts_of_spells spells begins rfl
  · cases read
    have spells : (Source.bool false).Spells "false".toList := rfl
    exact starts_of_spells spells begins rfl
  · split at read
    · rename_i body behind found
      cases read
      rcases spelledText_of_stringBody? found with ⟨spelled, rfl, each⟩
      have spells : (Source.string (String.ofList body)).Spells ('"' :: (spelled ++ ['"'])) :=
        ⟨spelled, by rwa [String.toList_ofList], rfl⟩
      refine starts_of_spells spells ?_ rfl
      rw [begins, List.cons_append, List.append_assoc]
      rfl
    · cases read
  · rw [outcome_widen] at read
    exact starts_number true begins read
  · exact starts_number false begins read

/-! ## Containers -/

theorem exists_label {taken : Taken String Char text.length} (found : name? text = some taken) :
    ∃ label, Padded (Quotes taken.item) label ∧ text = label ++ ':' :: taken.rest := by
  rw [name?] at found
  split at found
  · rename_i quoted opens
    split at found
    · rename_i body rest read
      split at found
      · rename_i behind colon
        cases found
        rcases spelledText_of_stringBody? read with ⟨spelled, rfl, each⟩
        rcases exists_blanks text with ⟨front, blankFront, whole⟩
        rcases exists_blanks rest with ⟨back, blankBack, gap⟩
        refine ⟨front ++ ('"' :: (spelled ++ ['"']) ++ back), ⟨front, _, back, blankFront,
          ⟨spelled, by rwa [String.toList_ofList], rfl⟩, blankBack, rfl⟩, ?_⟩
        rw [opens] at whole
        rw [colon] at gap
        have parts : front ++ '"' :: (spelled ++ '"' :: rest) =
            (front ++ ('"' :: (spelled ++ ['"']) ++ back)) ++ ':' :: behind := by
          rw [gap]
          simp
        exact whole.trans parts
      · cases found
    · cases found
  · cases found

section

variable (each : ∀ text taken, value? room text = some taken →
  Starts room text taken.item taken.rest)

include each

theorem exists_spellsItems {taken : Taken (List Json) Char text.length}
    (found : items? (value? room) text = some taken) :
    ∃ items inner, SpellsItems items inner ∧ text = inner ++ ']' :: taken.rest ∧
      items ≠ [] ∧ jsonItems? room items = some taken.item := by
  fun_induction items? (value? room) text with
  | case1 text missing => cases found
  | case2 text item rest shorter equal behind closed =>
      cases found
      rcases (each _ _ equal).exists_padded with ⟨source, first, padded, whole, denotes⟩
      refine ⟨[source], first, ⟨first, padded, .inl ⟨rfl, rfl⟩⟩, closed ▸ whole,
        List.cons_ne_nil _ _, ?_⟩
      rw [jsonItems?, denotes, jsonItems?]
      rfl
  | case3 text item rest shorter equal behind comma fits later =>
      rcases Option.map_eq_some_iff.mp found with ⟨more, more_found, rfl⟩
      rcases (each _ _ equal).exists_padded with ⟨source, first, padded, whole, denotes⟩
      rcases later more_found with ⟨items, inner, spelled, rest_eq, filled, others⟩
      refine ⟨source :: items, first ++ ',' :: inner,
        ⟨first, padded, .inr ⟨filled, inner, spelled, rfl⟩⟩, ?_, List.cons_ne_nil _ _, ?_⟩
      · change text = (first ++ ',' :: inner) ++ ']' :: more.rest
        rw [List.append_assoc, List.cons_append, ← rest_eq, ← comma]
        exact whole
      · rw [jsonItems?, denotes, Option.bind_some, others]
        rfl
  | case4 text item rest shorter equal noClose noComma => cases found

theorem exists_spellsMembers {taken : Taken (List (String × Json)) Char text.length}
    (found : Json.members? (value? room) text = some taken) :
    ∃ members inner, SpellsMembers members inner ∧ text = inner ++ '}' :: taken.rest ∧
      members ≠ [] ∧ jsonMembers? room members = some taken.item := by
  fun_induction Json.members? (value? room) text with
  | case1 text missing => cases found
  | case2 text name value named equal missing => cases found
  | case3 text name value named equal item rest shorter valued behind closed =>
      cases found
      rcases exists_label equal with ⟨label, labelled, front⟩
      rcases (each _ _ valued).exists_padded with ⟨source, first, padded, whole, denotes⟩
      refine ⟨[(name, source)], label ++ ':' :: first,
        ⟨label, first, labelled, padded, .inl ⟨rfl, rfl⟩⟩, ?_, List.cons_ne_nil _ _, ?_⟩
      · rw [List.append_assoc, List.cons_append, ← closed]
        exact front.trans (congrArg (label ++ ':' :: ·) whole)
      · rw [jsonMembers?, denotes, jsonMembers?]
        rfl
  | case4 text name value named equal item rest shorter valued behind comma fits later =>
      rcases Option.map_eq_some_iff.mp found with ⟨more, more_found, rfl⟩
      rcases exists_label equal with ⟨label, labelled, front⟩
      rcases (each _ _ valued).exists_padded with ⟨source, first, padded, whole, denotes⟩
      rcases later more_found with ⟨members, inner, spelled, rest_eq, filled, others⟩
      refine ⟨(name, source) :: members, (label ++ ':' :: first) ++ ',' :: inner,
        ⟨label, first, labelled, padded, .inr ⟨filled, inner, spelled, rfl⟩⟩, ?_,
        List.cons_ne_nil _ _, ?_⟩
      · change text = ((label ++ ':' :: first) ++ ',' :: inner) ++ '}' :: more.rest
        rw [List.append_assoc, List.cons_append, ← rest_eq, ← comma, List.append_assoc,
          List.cons_append]
        exact front.trans (congrArg (label ++ ':' :: ·) whole)
      · rw [jsonMembers?, denotes, Option.bind_some, others]
        rfl
  | case5 text name value named equal item rest shorter valued noClose noComma => cases found

end

/-! ## All of JSON -/

theorem starts_array {items : List Source} {jsons : List Json} {inner written : List Char}
    (opens : skipBlanks text = '[' :: inner) (spelled : SpellsItems items written)
    (whole : inner = written ++ ']' :: rest) (denotes : jsonItems? room items = some jsons) :
    Starts (room + 1) text (.array jsons) rest := by
  have spells : (Source.array items).Spells ('[' :: (written ++ [']'])) := ⟨written, spelled, rfl⟩
  refine starts_of_spells spells ?_ ?_
  · rw [opens, whole]
    simp
  · rw [json?, if_neg (Nat.succ_ne_zero room), Nat.add_sub_cancel, denotes]
    rfl

theorem starts_object {members : List (String × Source)} {pairs : List (String × Json)}
    {inner written : List Char} (opens : skipBlanks text = '{' :: inner)
    (spelled : SpellsMembers members written) (whole : inner = written ++ '}' :: rest)
    (denotes : jsonMembers? room members = some pairs) :
    Starts (room + 1) text (.object (Fields.ofPairs pairs)) rest := by
  have spells : (Source.object members).Spells ('{' :: (written ++ ['}'])) :=
    ⟨written, spelled, rfl⟩
  refine starts_of_spells spells ?_ ?_
  · rw [opens, whole]
    simp
  · rw [json?, if_neg (Nat.succ_ne_zero room), Nat.add_sub_cancel, denotes]
    rfl

/-- What is read from the front of a text is what some source denotes that the text starts
with. -/
theorem starts_of_value? {taken : Taken Json Char text.length}
    (read : value? room text = some taken) : Starts room text taken.item taken.rest := by
  -- On the room, of which every container takes one level.
  induction room generalizing text with
  | zero =>
      rw [value?] at read
      split at read
      · cases read
      · cases read
      · rcases Option.map_eq_some_iff.mp read with ⟨start, found, rfl⟩
        exact starts_scalar? rfl (congrArg outcome found)
  | succ room induction =>
      have each : ∀ text taken, value? room text = some taken →
          Starts room text taken.item taken.rest := fun text taken found => induction found
      rw [value?] at read
      simp only at read
      split at read
      · rename_i inner opens
        rcases exists_blanks inner with ⟨front, blank, whole⟩
        split at read
        · rename_i rest closed
          cases read
          have nothing : SpellsItems [] front := blank
          exact starts_array opens nothing (closed ▸ whole) rfl
        · rcases Option.map_eq_some_iff.mp read with ⟨jsons, found, rfl⟩
          rcases exists_spellsItems each found with ⟨items, written, spelled, whole, _, denotes⟩
          exact starts_array opens spelled whole denotes
      · rename_i inner opens
        rcases exists_blanks inner with ⟨front, blank, whole⟩
        split at read
        · rename_i rest closed
          cases read
          have nothing : SpellsMembers [] front := blank
          exact starts_object opens nothing (closed ▸ whole) rfl
        · rcases Option.map_eq_some_iff.mp read with ⟨pairs, found, rfl⟩
          rcases exists_spellsMembers each found with
            ⟨members, written, spelled, whole, _, denotes⟩
          exact starts_object opens spelled whole denotes
      · rcases Option.map_eq_some_iff.mp read with ⟨start, found, rfl⟩
        exact starts_scalar? rfl (congrArg outcome found)

/-- A text is JSON just if it is a text of the grammar whose source denotes something. -/
theorem parse?_eq_some_iff {text : String} :
    parse? text = some json ↔
      ∃ source : Source, source.WrittenAs text ∧ source.json? depthLimit = some json := by
  constructor
  · intro read
    rw [parse?, front?] at read
    cases found : value? depthLimit text.toList with
    | none =>
        rw [found] at read
        cases read
    | some taken =>
        simp only [found, Option.map_some] at read
        split at read
        · rename_i ends
          cases read
          rcases (starts_of_value? found).exists_padded with ⟨source, first, padded, whole, denotes⟩
          rw [ends, List.append_nil] at whole
          exact ⟨source, by rwa [WrittenAs, whole], denotes⟩
        · cases read
  · rintro ⟨source, written, denotes⟩
    rw [parse?_of_writtenAs written, denotes]

end Source

end Json

end DocShell
