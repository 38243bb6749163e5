import DocShell.Bridge.Document
import DocShell.Proofs.Json.Numbers
import DocShell.Proofs.Json.RoundTrip
import DocShell.Proofs.Json.Strings
import DocShell.Proofs.Value.Decoded
import DocShell.Proofs.Value.RoundTrip

namespace DocShell

/-! # JSON text as shell text

Every JSON text is shell text, and denotes there the value of the JSON in which no object
stands for a typed value. Two levels for each of the containers that JSON may nest, and two
for a number behind a minus sign, are just the levels that expressions have by default. -/

/-! ## Fronts of texts -/

namespace Token

def Passes (text : List Char) (lexemes : List Lexeme) (rest : List Char) : Prop :=
  ∃ front, text = front ++ rest ∧ Spells front lexemes rest

variable {text middle rest : List Char}

theorem Spells.passes {front : List Char} {lexemes : List Lexeme}
    (spells : Spells front lexemes rest) : Passes (front ++ rest) lexemes rest :=
  ⟨front, rfl, spells⟩

theorem Passes.trans {front back : List Lexeme} (first : Passes text front middle)
    (second : Passes middle back rest) : Passes text (front ++ back) rest := by
  rcases first with ⟨before, rfl, frontSpells⟩
  rcases second with ⟨behind, rfl, backSpells⟩
  exact ⟨before ++ behind, (List.append_assoc _ _ _).symm, frontSpells.append backSpells⟩

/-- A blank of JSON is one of shell text, and belongs to no lexeme. -/
theorem blank_of_isBlank {character : Char} (blank : Json.isBlank character = true) :
    Text.isBlank character = true ∧ Text.isOptionPart character = false ∧ character ≠ '.' := by
  simp only [Json.isBlank, Bool.or_eq_true, decide_eq_true_eq] at blank
  rcases blank with ((rfl | rfl) | rfl) | rfl <;> decide

theorem passes_skipBlanks (text : List Char) : Passes text [] (Json.skipBlanks text) := by
  have blanks : ∀ blank ∈ text.takeWhile Json.isBlank, Text.isBlank blank = true :=
    fun blank member => (blank_of_isBlank (List.all_eq_true.mp List.all_takeWhile blank member)).1
  exact ⟨text.takeWhile Json.isBlank, List.takeWhile_append_dropWhile.symm, spells_blanks blanks _⟩

theorem passes_mark {mark : Mark} (noDot : mark ≠ .dot)
    (marked : Json.skipBlanks text = mark.character :: rest) : Passes text [.mark mark] rest := by
  have blanks := passes_skipBlanks text
  rw [marked] at blanks
  exact blanks.trans (spells_mark noDot rest).passes

theorem passes_minus (negative : Bool) {lexemes : List Lexeme}
    (behind : Passes text lexemes rest) :
    Passes (if negative then '-' :: text else text) (Value.signLexemes negative ++ lexemes) rest := by
  have noDot : Mark.minus ≠ .dot := by decide
  cases negative with
  | false => exact behind
  | true => exact (spells_mark noDot text).passes.trans behind

theorem passes_string {body : List Char} (read : Json.stringBody? text = some (body, rest)) :
    Passes ('"' :: text) [.string (String.ofList body)] rest := by
  rcases Json.spelledText_of_stringBody? read with ⟨spelled, rfl, each⟩
  have passes := (spells_spelledText each rest).passes
  rwa [List.append_assoc] at passes

/-- Blanks set apart what stands before them. -/
theorem apart_of_skipBlanks (apart : Apart (Json.skipBlanks text)) : Apart text := by
  cases text with
  | nil => exact apart_nil
  | cons first more =>
      cases blank : Json.isBlank first with
      | true =>
          have outside := (blank_of_isBlank blank).2
          exact apart_cons outside.1 outside.2 more
      | false =>
          rw [Json.skipBlanks, List.dropWhile_cons, blank] at apart
          exact apart

theorem apart_of_mark (mark : Mark) (outside : mark ∈ [Mark.comma, .bracketClose, .braceClose])
    (marked : Json.skipBlanks text = mark.character :: rest) : Apart text := by
  refine apart_of_skipBlanks ?_
  rw [marked]
  simp only [List.mem_cons, List.not_mem_nil, or_false] at outside
  rcases outside with rfl | rfl | rfl <;> exact apart_cons (by decide) (by decide) _

end Token

namespace Json

open Reader Token

/-! ## Parts of JSON as phrases -/

/-- A part of JSON with the lexemes that it is spelled with and the levels that reading
them takes. -/
structure Wording where
  json : Json
  lexemes : List Lexeme
  need : Nat

namespace Wording

def phrase (wording : Wording) : Phrase Expr :=
  ⟨wording.lexemes, wording.need, Expr.Means wording.json.untyped⟩

structure Fits (levels : Nat) (wording : Wording) : Prop where
  readable : wording.phrase.Readable
  need : wording.need ≤ levels
  plain : wording.json.untyped.plain = wording.json.untyped

theorem Fits.mono {wording : Wording} {levels more : Nat} (fits : wording.Fits levels)
    (larger : levels ≤ more) : wording.Fits more :=
  ⟨fits.readable, Nat.le_trans fits.need larger, fits.plain⟩

theorem Fits.of_readable {json : Json} {lexemes : List Lexeme}
    (readable : Phrase.Readable ⟨lexemes, 1, Expr.Means json.untyped⟩)
    (plain : json.untyped.plain = json.untyped) : Fits 2 ⟨json, lexemes, 1⟩ :=
  ⟨readable, Nat.le_succ 1, plain⟩

end Wording

def Worded (levels : Nat) (text : List Char) (json : Json) (rest : List Char) : Prop :=
  ∃ wording : Wording, wording.json = json ∧ wording.Fits levels ∧
    Passes text wording.lexemes rest

theorem worded_keyword (word : String) {literal : Literal} {json : Json} {rest : List Char}
    (nonempty : word.toList ≠ []) (letters : word.toList.all Char.isAlpha = true)
    (keyword : keyword? word = some literal)
    (valued : ∀ position, Expr.literalValue position literal = .ok json.untyped)
    (plain : json.untyped.plain = json.untyped) (apart : Apart rest) :
    Worded 2 (word.toList ++ rest) json rest :=
  ⟨_, rfl, .of_readable (Value.readable_keyword keyword valued) plain,
    (spells_name nonempty letters apart).passes⟩

/-- A sign in front of a number is an operator in shell text, and takes the second level. -/
theorem worded_unsigned? {negative : Bool} {text : List Char}
    {taken : Taken Json Char text.length} (read : unsigned? negative text = some taken)
    (apart : Apart taken.rest) :
    Worded 2 (if negative then '-' :: text else text) taken.item taken.rest := by
  rcases exists_numeral_of_unsigned? read with ⟨numeral, found, nonempty, leading, denotes⟩
  rcases spells_numeral found nonempty leading apart with ⟨front, equal, spells⟩
  let literal : NumberLiteral := ⟨numeral.toDouble false, String.ofList front⟩
  have value : (if negative then literal.value.neg else literal.value) =
      numeral.toDouble negative := by
    cases negative with
    | false => rw [if_neg Bool.false_ne_true]
    | true => rw [if_pos rfl, numeral.neg_toDouble, Bool.not_false]
  have readable := Value.readable_signed negative (Value.readable_number literal)
  rw [value, ← denotes.value] at readable
  have plain : taken.item.untyped.plain = taken.item.untyped := by
    rw [denotes.value, Value.plain, denotes.finite, if_pos rfl]
  have behind : Passes text [.number literal] taken.rest := ⟨front, equal, spells⟩
  have fits : Wording.Fits 2
      ⟨taken.item, Value.signLexemes negative ++ [.number literal], Value.signNeed negative⟩ :=
    ⟨readable, Value.signNeed_le negative, plain⟩
  exact ⟨_, rfl, fits, passes_minus negative behind⟩

theorem worded_scalar? {text : List Char} {taken : Taken Json Char text.length}
    (read : scalar? text = some taken) (apart : Apart taken.rest) :
    Worded 2 text taken.item taken.rest := by
  unfold scalar? at read
  split at read
  · cases read
    exact worded_keyword "null" (by decide) (by decide) rfl (fun _ => rfl) rfl apart
  · cases read
    exact worded_keyword "true" (by decide) (by decide) rfl (fun _ => rfl) rfl apart
  · cases read
    exact worded_keyword "false" (by decide) (by decide) rfl (fun _ => rfl) rfl apart
  · split at read
    · rename_i body rest found
      cases read
      exact ⟨_, rfl, .of_readable (Value.readable_string _) rfl, passes_string found⟩
    · cases read
  · rcases Option.map_eq_some_iff.mp read with ⟨number, found, rfl⟩
    exact worded_unsigned? found apart
  · exact worded_unsigned? read apart

/-! ## Lists

A member of an object is worded as its name in quotes, a colon, and the wording of its value. -/

def memberPhrase (member : String × Wording) : Phrase (String × Expr) :=
  member.2.phrase.field member.1 (.string member.1)

def memberJson (member : String × Wording) : String × Json := (member.1, member.2.json)

theorem passes_last {text middle rest : List Char} {closing : Mark} {lexemes : List Lexeme}
    (noDot : closing ≠ .dot) (first : Passes text lexemes middle)
    (closes : skipBlanks middle = closing.character :: rest) :
    Passes text (separated [lexemes] ++ [.mark closing]) rest :=
  first.trans (passes_mark noDot closes)

theorem passes_cons {text middle behind rest : List Char} {closing : Mark}
    {lexemes next : List Lexeme} {more : List (List Lexeme)} (first : Passes text lexemes middle)
    (comma : skipBlanks middle = ',' :: behind)
    (later : Passes behind (separated (next :: more) ++ [.mark closing]) rest) :
    Passes text (separated (lexemes :: next :: more) ++ [.mark closing]) rest := by
  have noDot : Mark.comma ≠ .dot := by decide
  have passes := first.trans ((passes_mark noDot comma).trans later)
  rw [separated, List.append_assoc]
  · exact passes
  · exact List.cons_ne_nil _ _

theorem passes_name? {text : List Char} {taken : Taken String Char text.length}
    (read : name? text = some taken) :
    Passes text [.string taken.item, .mark .colon] taken.rest := by
  have noDot : Mark.colon ≠ .dot := by decide
  rw [name?] at read
  split at read
  · rename_i quoted equal
    split at read
    · rename_i body rest found
      split at read
      · rename_i behind colon
        cases read
        have blanks := passes_skipBlanks text
        rw [equal] at blanks
        exact blanks.trans ((passes_string found).trans (passes_mark noDot colon))
      · cases read
    · cases read
  · cases read

section

variable {levels : Nat} {read : (text : List Char) → Option (Taken Json Char text.length)}
  (each : ∀ text taken, read text = some taken → Apart taken.rest →
    Worded levels text taken.item taken.rest)

include each

theorem worded_items? {text : List Char} {taken : Taken (List Json) Char text.length}
    (found : items? read text = some taken) :
    ∃ first others, taken.item = (first :: others).map Wording.json ∧
      (∀ wording ∈ first :: others, wording.Fits levels) ∧
      Passes text (separated ((first :: others).map Wording.lexemes) ++ [.mark .bracketClose])
        taken.rest := by
  fun_induction items? read text with
  | case1 text missing => cases found
  | case2 text item rest shorter equal behind closed =>
      cases found
      have apart : Apart rest := apart_of_mark .bracketClose (by decide) closed
      rcases each _ _ equal apart with ⟨first, rfl, fits, passes⟩
      refine ⟨first, [], rfl, ?_, passes_last (by decide) passes closed⟩
      exact fun wording member => List.mem_singleton.mp member ▸ fits
  | case3 text item rest shorter equal behind comma _ later =>
      rcases Option.map_eq_some_iff.mp found with ⟨more, inner, rfl⟩
      have apart : Apart rest := apart_of_mark .comma (by decide) comma
      rcases each _ _ equal apart with ⟨first, rfl, fits, passes⟩
      rcases later inner with ⟨second, others, items, allFit, behindPasses⟩
      refine ⟨first, second :: others, ?_, ?_, passes_cons passes comma behindPasses⟩
      · exact congrArg (List.cons first.json) items
      · exact List.forall_mem_cons.mpr ⟨fits, allFit⟩
  | case4 text item rest shorter equal noClose noComma => cases found

theorem worded_members? {text : List Char} {taken : Taken (List (String × Json)) Char text.length}
    (found : members? read text = some taken) :
    ∃ first others, taken.item = (first :: others).map memberJson ∧
      (∀ member ∈ first :: others, member.2.Fits levels) ∧
      Passes text (separated ((first :: others).map fun member => (memberPhrase member).lexemes) ++
        [.mark .braceClose]) taken.rest := by
  fun_induction members? read text with
  | case1 text missing => cases found
  | case2 text name value named equal missing => cases found
  | case3 text name value named equal item rest shorter valued behind closed =>
      cases found
      have apart : Apart rest := apart_of_mark .braceClose (by decide) closed
      rcases each _ _ valued apart with ⟨first, rfl, fits, passes⟩
      have member := (passes_name? equal).trans passes
      refine ⟨(name, first), [], rfl, ?_, passes_last (by decide) member closed⟩
      exact fun other inside => List.mem_singleton.mp inside ▸ fits
  | case4 text name value named equal item rest shorter valued behind comma _ later =>
      rcases Option.map_eq_some_iff.mp found with ⟨more, inner, rfl⟩
      have apart : Apart rest := apart_of_mark .comma (by decide) comma
      rcases each _ _ valued apart with ⟨first, rfl, fits, passes⟩
      have member := (passes_name? equal).trans passes
      rcases later inner with ⟨second, others, items, allFit, behindPasses⟩
      refine ⟨(name, first), second :: others, ?_, ?_, passes_cons member comma behindPasses⟩
      · exact congrArg (List.cons (name, first.json)) items
      · exact List.forall_mem_cons.mpr ⟨fits, allFit⟩
  | case5 text name value named equal item rest shorter valued noClose noComma => cases found

end

/-! ## Containers -/

theorem itemValues_of_wordings {wordings : List Wording} {exprs : List (Option Expr)}
    (each : MeanEach ((wordings.map Wording.phrase).map Phrase.item) exprs) :
    Expr.itemValues exprs = .ok (untypedItems (wordings.map Wording.json)) := by
  induction wordings generalizing exprs with
  | nil =>
      cases each
      rfl
  | cons wording rest induction =>
      rcases each with _ | ⟨first, later⟩
      rcases first with ⟨expr, rfl, meaning, equal, value⟩
      rw [Expr.itemValues, equal, induction later, List.map_cons, untypedItems, ← value]
      rfl

theorem fieldValues_of_wordings {members : List (String × Wording)} {exprs : List (String × Expr)}
    (each : MeanEach (members.map memberPhrase) exprs) :
    Expr.fieldValues exprs = .ok (untypedMembers (members.map memberJson)) := by
  induction members generalizing exprs with
  | nil =>
      cases each
      rfl
  | cons member rest induction =>
      rcases each with _ | @⟨_, field, _, _, first, later⟩
      rcases field with ⟨name, expr⟩
      rcases first with ⟨named, meaning, equal, value⟩
      have named : name = member.1 := named
      rw [Expr.fieldValues, equal, induction later, List.map_cons, memberJson, untypedMembers,
        ← value, named]
      rfl

theorem fits_array {levels : Nat} {wordings : List Wording}
    (fits : ∀ wording ∈ wordings, wording.Fits levels) :
    Wording.Fits (levels + 2) ⟨.array (wordings.map Wording.json),
      .mark .bracketOpen ::
        (separated (wordings.map Wording.lexemes) ++ [.mark .bracketClose]),
      2 + deepest ((wordings.map Wording.phrase).map Phrase.item)⟩ := by
  have readable : ∀ phrase ∈ wordings.map Wording.phrase, phrase.Readable := by
    intro phrase member
    rcases List.mem_map.mp member with ⟨wording, inside, rfl⟩
    exact (fits wording inside).readable
  have need : deepest ((wordings.map Wording.phrase).map Phrase.item) ≤ levels := by
    refine deepest_le.mpr fun phrase member => ?_
    rw [List.map_map] at member
    rcases List.mem_map.mp member with ⟨wording, inside, rfl⟩
    exact (fits wording inside).need
  have plain : ∀ item ∈ untypedItems (wordings.map Wording.json),
      item.plain = item ∧ item.isAbsent = false := by
    intro item member
    rw [untypedItems_eq_map, List.map_map] at member
    rcases List.mem_map.mp member with ⟨wording, inside, rfl⟩
    exact ⟨(fits wording inside).plain, isAbsent_untyped _⟩
  refine ⟨?_, Nat.add_comm levels 2 ▸ Nat.add_le_add_left need 2, ?_⟩
  · have read := readable_array readable
    rw [List.map_map, List.map_map] at read
    refine read.imp fun expr meant => ?_
    rcases meant with ⟨position, exprs, rfl, each⟩
    refine ⟨.data (.array (untypedItems (wordings.map Wording.json))), ?_, rfl⟩
    rw [Expr.meaning, itemValues_of_wordings each]
    rfl
  · rw [untyped, Value.plain, Value.plainItems_of_each plain]

/-- All members are read, and of those of one name the last one counts, as in JSON. -/
theorem fits_object {levels : Nat} {members : List (String × Wording)}
    (fits : ∀ member ∈ members, member.2.Fits levels) :
    Wording.Fits (levels + 2) ⟨.object (Fields.ofPairs (members.map memberJson)),
      .mark .braceOpen ::
        (separated (members.map fun member => (memberPhrase member).lexemes) ++ [.mark .braceClose]),
      2 + deepest (members.map memberPhrase)⟩ := by
  have readable : ∀ phrase ∈ members.map memberPhrase, ∀ context room,
      phrase.ReadBy context room fun tokens =>
        Reader.outcome (field context (expression context room) tokens) := by
    intro phrase inside
    rcases List.mem_map.mp inside with ⟨member, belongs, rfl⟩
    exact (fits member belongs).readable.field (.inr rfl)
  have need : deepest (members.map memberPhrase) ≤ levels := by
    refine deepest_le.mpr fun phrase inside => ?_
    rcases List.mem_map.mp inside with ⟨member, belongs, rfl⟩
    exact (fits member belongs).need
  have fields : Fields.ofPairs (untypedMembers (members.map memberJson)) =
      untypedMembers (Fields.ofPairs (members.map memberJson)) := by
    rw [untypedMembers_eq_map, untypedMembers_eq_map, Fields.ofPairs_map]
  have plain : ∀ field ∈ untypedMembers (Fields.ofPairs (members.map memberJson)),
      field.2.plain = field.2 ∧ field.2.isAbsent = false := by
    intro field inside
    rw [untypedMembers_eq_map] at inside
    rcases List.mem_map.mp inside with ⟨pair, kept, rfl⟩
    rcases List.mem_map.mp (Fields.mem_of_mem_ofPairs kept) with ⟨member, belongs, rfl⟩
    exact ⟨(fits member belongs).plain, isAbsent_untyped _⟩
  refine ⟨?_, Nat.add_comm levels 2 ▸ Nat.add_le_add_left need 2, ?_⟩
  · have read := readable_object readable
    rw [List.map_map] at read
    refine read.imp fun expr meant => ?_
    rcases meant with ⟨position, exprs, rfl, each⟩
    refine ⟨.data (.document (untypedMembers _)), ?_, rfl⟩
    rw [Expr.meaning, fieldValues_of_wordings each, ← fields]
    rfl
  · rw [untyped, Value.plain, Value.plainFields_of_each plain]

/-! ## All of JSON -/

theorem worded_array {levels : Nat} {text inner rest : List Char} (wordings : List Wording)
    (opens : skipBlanks text = '[' :: inner) (fits : ∀ wording ∈ wordings, wording.Fits levels)
    (passes : Passes inner (separated (wordings.map Wording.lexemes) ++ [.mark .bracketClose])
      rest) : Worded (levels + 2) text (.array (wordings.map Wording.json)) rest := by
  have noDot : Mark.bracketOpen ≠ .dot := by decide
  exact ⟨_, rfl, fits_array fits, (passes_mark noDot opens).trans passes⟩

theorem worded_object {levels : Nat} {text inner rest : List Char}
    (members : List (String × Wording)) (opens : skipBlanks text = '{' :: inner)
    (fits : ∀ member ∈ members, member.2.Fits levels)
    (passes : Passes inner (separated (members.map fun member => (memberPhrase member).lexemes) ++
      [.mark .braceClose]) rest) :
    Worded (levels + 2) text (.object (Fields.ofPairs (members.map memberJson))) rest := by
  have noDot : Mark.braceOpen ≠ .dot := by decide
  exact ⟨_, rfl, fits_object fits, (passes_mark noDot opens).trans passes⟩

theorem worded_start {text : List Char} {taken : Taken Json Char (skipBlanks text).length}
    (read : scalar? (skipBlanks text) = some taken) (apart : Apart taken.rest) (room : Nat) :
    Worded (2 * room + 2) text taken.item taken.rest := by
  rcases worded_scalar? read apart with ⟨wording, equal, fits, passes⟩
  exact ⟨wording, equal, fits.mono (Nat.le_add_left 2 _), (passes_skipBlanks text).trans passes⟩

/-- What is read with room for some containers is worded within two levels for each of
them, and two more. -/
theorem worded_value? {room : Nat} {text : List Char} {taken : Taken Json Char text.length}
    (read : value? room text = some taken) (apart : Apart taken.rest) :
    Worded (2 * room + 2) text taken.item taken.rest := by
  have bracket : Mark.bracketClose ≠ .dot := by decide
  have brace : Mark.braceClose ≠ .dot := by decide
  -- On the room, of which an array or an object takes one level, as it takes two of the expression.
  induction room generalizing text with
  | zero =>
      rw [value?] at read
      split at read
      · cases read
      · cases read
      · rcases Option.map_eq_some_iff.mp read with ⟨start, found, rfl⟩
        exact worded_start found apart 0
  | succ room induction =>
      have each : ∀ text taken, value? room text = some taken → Apart taken.rest →
          Worded (2 * room + 2) text taken.item taken.rest :=
        fun text taken found apart => induction found apart
      rw [value?] at read
      simp only at read
      split at read
      · rename_i inner opens
        split at read
        · rename_i rest closed
          cases read
          exact worded_array [] opens (List.forall_mem_nil _)
            (passes_mark bracket closed)
        · rcases Option.map_eq_some_iff.mp read with ⟨items, found, rfl⟩
          rcases worded_items? each found with ⟨first, others, equal, fits, passes⟩
          rw [Taken.item_widen, Taken.item_map, equal]
          exact worded_array _ opens fits passes
      · rename_i inner opens
        split at read
        · rename_i rest closed
          cases read
          exact worded_object [] opens (List.forall_mem_nil _)
            (passes_mark brace closed)
        · rcases Option.map_eq_some_iff.mp read with ⟨pairs, found, rfl⟩
          rcases worded_members? each found with ⟨first, others, equal, fits, passes⟩
          rw [Taken.item_widen, Taken.item_map, equal]
          exact worded_object _ opens fits passes
      · rcases Option.map_eq_some_iff.mp read with ⟨start, found, rfl⟩
        exact worded_start found apart (room + 1)

theorem ofShell_of_worded {levels limit : Nat} {text : String} {json : Json} {rest : List Char}
    (worded : Worded levels text.toList json rest) (ends : skipBlanks rest = [])
    (room : levels ≤ limit) : Value.ofShell limit text = .ok json.untyped := by
  rcases worded with ⟨wording, rfl, fits, passes⟩
  have blanks := passes_skipBlanks rest
  rw [ends] at blanks
  rcases passes.trans blanks with ⟨front, whole, spells⟩
  rw [List.append_nil] at whole spells
  rcases spells.scan with ⟨tokens, finish, scanned, lexemes⟩
  rw [← whole, String.ofList_toList] at scanned
  rw [Value.ofShell_of_tokens scanned]
  rcases Value.ofTokens_of_readable fits.readable lexemes limit finish with
    ⟨_, expr, ⟨meaning, evaluated, value⟩, parsed⟩ | ⟨short, _⟩
  · rw [parsed]
    change expr.evaluate = _
    rw [Expr.evaluate, evaluated]
    change Except.ok meaning.value.plain = _
    rw [value, fits.plain]
  · exact absurd (Nat.le_trans fits.need room) short

/-- Under the default limit, every JSON text is a shell text of the value that its JSON has
without typed values. -/
theorem ofShell_of_parse? {text : String} {json : Json} (read : parse? text = some json) :
    Value.ofShell Value.defaultLimit text = .ok json.untyped := by
  rw [parse?, front?] at read
  cases found : value? depthLimit text.toList with
  | none =>
      rw [found] at read
      cases read
  | some taken =>
      simp only [found, Option.map_some] at read
      split at read
      · rename_i ends
        cases read
        have apart : Apart taken.rest := apart_of_skipBlanks (ends ▸ apart_nil)
        exact ofShell_of_worded (worded_value? found apart) ends (by decide)
      · cases read

end Json

namespace Value

/-- JSON text that is read without meeting a typed value has the same value as shell text. -/
theorem ofShell_of_ofJsonText {text : String} {value : Value}
    (accepted : ofJsonText text = .ok value)
    (unwrapped : ∀ json, Json.parse? text = some json → json.Unwrapped) :
    ofShell defaultLimit text = .ok value := by
  rw [ofJsonText] at accepted
  split at accepted
  · rename_i json read
    rw [Json.ofShell_of_parse? read,
      ofJson_eq_untyped (Json.distinct_of_parse? read) (unwrapped json read) accepted]
  · cases accepted

theorem readsAs_true (room : Nat) : Json.ReadsAs room ['t', 'r', 'u', 'e'] (.bool true) :=
  ⟨.bool true, rfl, rfl⟩

theorem readsAs_minusZero (room : Nat) :
    Json.ReadsAs room ['-', '0', '.', '0'] (.float (.finite true .zero)) := by
  have sound : Spelling.Sound ⟨['0'], some ['0'], none⟩ :=
    ⟨⟨List.all_eq_true.mp rfl, fun _ member => Option.some.inj member ▸ List.all_eq_true.mp rfl,
      nofun⟩, by decide, by decide⟩
  exact ⟨.number true ⟨['0'], some ['0'], none⟩, ⟨sound, by decide, rfl⟩, rfl⟩

/-- The later of two members of one name counts, and zero keeps its sign. -/
theorem ofShell_of_ofJsonText_repeatedName :
    ofShell defaultLimit "\x7b\"k\":true,\"k\":-0.0\x7d" =
      .ok (.document [("k", .number (.finite true .zero))]) := by
  have parsed : Json.parse? "\x7b\"k\":true,\"k\":-0.0\x7d" =
      some (.object [("k", .float (.finite true .zero))]) :=
    Json.parse?_of_readsAs (Json.readsAs_members
      (.cons "k" (readsAs_true 126) (.cons "k" (readsAs_minusZero 126) .nil)))
  have accepted : ofJsonText "\x7b\"k\":true,\"k\":-0.0\x7d" =
      .ok (.document [("k", .number (.finite true .zero))]) := by
    rw [ofJsonText, parsed]
    rfl
  refine ofShell_of_ofJsonText accepted fun json read => ?_
  cases parsed.symm.trans read
  refine Json.objects_object.mpr ⟨rfl, fun _ member inside => ?_⟩
  rw [List.mem_singleton.mp inside]
  exact Json.objects_of_leaf rfl

end Value

end DocShell
