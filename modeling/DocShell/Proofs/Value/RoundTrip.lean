import DocShell.Proofs.Fields
import DocShell.Proofs.Value.Phrases
import DocShell.Evaluation.Meaning

namespace DocShell

/-! # Reading a written value back

The text of a sound and closed value is read as the normal form of that value if the
levels of the value are allowed, and is refused for its depth if they are not. -/

/-- An expression that denotes the given data, once that is made plain. -/
def Expr.Denotes (data : Value) (expr : Expr) : Prop :=
  ∃ read, Expr.Means read expr ∧ read.plain = data

namespace Value

open Reader

def phrase (value : Value) : Phrase Expr :=
  ⟨value.lexemes, value.need, Expr.Denotes value.normal⟩

/-! ## Scalars -/

theorem readable_plain {lexemes : List Lexeme} {need : Nat} {value data : Value}
    (readable : Phrase.Readable ⟨lexemes, need, Expr.Means value⟩) (plain : value.plain = data) :
    Phrase.Readable ⟨lexemes, need, Expr.Denotes data⟩ :=
  readable.imp fun _ means => ⟨value, means, plain⟩

theorem readable_number_plain (number : Double) :
    Phrase.Readable ⟨numberLexemes number, numberNeed number, Expr.Denotes (normalNumber number)⟩ :=
  (readable_double number).imp fun _ meant =>
    meant.elim fun read both => ⟨.number read, both⟩

/-- Whole numbers of 32 bits are finite as doubles. -/
theorem plain_ofInt (whole : Int32) :
    (number (Double.ofInt whole.toInt)).plain = .number (Double.ofInt whole.toInt) := by
  have lower := whole.le_toInt
  have upper := whole.toInt_lt
  have exact : whole.toInt.natAbs ≤ Double.exactLimit := by
    rw [Double.exactLimit]
    omega
  have read := Double.toInt?_ofInt exact
  generalize Double.ofInt whole.toInt = double at read
  cases double with
  | finite negative magnitude => rfl
  | infinity negative => cases read
  | nan => cases read

theorem readable_pattern {pattern : Pattern} (sound : pattern.Sound) :
    (regex pattern).phrase.Readable := by
  rcases exists_writtenSource_eq sound.accepted.1 with ⟨first, more, written, noStar, _⟩
  have accepted : Pattern.new? (String.ofList (writtenSource pattern.source)) pattern.options =
      some ⟨String.ofList (writtenSource pattern.source), pattern.options⟩ := by
    refine sound.replace ?_
    rw [String.toList_ofList, written]
    simpa using noStar
  exact readable_plain (readable_regex accepted) rfl

theorem readable_scalar {value : Value} (scalar : value.isContainer = false)
    (sound : value.SoundHere) (present : value.isAbsent = false) : value.phrase.Readable := by
  cases value with
  | absent => cases present
  | null => exact readable_plain (readable_keyword rfl fun _ => rfl) rfl
  | bool value =>
      cases value with
      | false => exact readable_plain (readable_keyword rfl fun _ => rfl) rfl
      | true => exact readable_plain (readable_keyword rfl fun _ => rfl) rfl
  | number value => exact readable_number_plain value
  | string text => exact readable_plain (readable_string text) rfl
  | objectId identifier => exact readable_plain (readable_objectId identifier) rfl
  | int value => exact readable_plain (readable_integer value.toInt) (plain_ofInt value)
  | long digits => exact readable_plain (readable_long digits) rfl
  | decimal digits => exact readable_plain (readable_decimal digits) rfl
  | double value => exact readable_number_plain value
  | date instant => exact readable_plain (readable_date sound) rfl
  | regex pattern => exact readable_pattern sound
  | timestamp seconds increment => exact readable_plain (readable_timestamp seconds increment) rfl
  | binary data => exact readable_plain (readable_binary data) rfl
  | array items => cases scalar
  | document fields => cases scalar

/-! ## Arrays -/

def slot (item : Value) : Phrase Expr where
  lexemes := if item.isAbsent then [.word "undefined"] else item.lexemes
  need := max 1 item.need
  means expr := ∃ read, Expr.Means read expr ∧ read.plain.orNull = item.normal.orNull

theorem readable_slot {item : Value} (readable : item.isAbsent = false → item.phrase.Readable) :
    item.slot.Readable := by
  cases absent : item.isAbsent with
  | true =>
      cases item with
      | absent =>
          have named : Meaning.ofName? "undefined" = some (.data .absent) := rfl
          refine (readable_name "undefined" rfl (by decide) named).imp ?_
          exact fun expr means => ⟨.absent, means, rfl⟩
      | _ => cases absent
  | false =>
      have levels : max 1 item.need = item.need := Nat.max_eq_right (one_le_need absent)
      rw [slot, absent, levels]
      refine (readable absent).imp fun expr denotes => ?_
      rcases denotes with ⟨read, means, plain⟩
      exact ⟨read, means, congrArg orNull plain⟩

theorem map_slot_lexemes (items : List Value) :
    ((items.map slot).map Phrase.item).map (·.lexemes) = itemLexemes items := by
  induction items with
  | nil => rfl
  | cons item rest induction => rw [itemLexemes, ← induction]; rfl

theorem deepest_slots (items : List Value) :
    deepest ((items.map slot).map Phrase.item) = needItems items := by
  induction items with
  | nil => rfl
  | cons item rest induction => rw [needItems, ← induction]; rfl

theorem itemValues_of_meanEach {items : List Value} {exprs : List (Option Expr)}
    (each : MeanEach ((items.map slot).map Phrase.item) exprs) :
    ∃ values, Expr.itemValues exprs = .ok values ∧ plainItems values = normalItems items := by
  induction items generalizing exprs with
  | nil =>
      cases each
      exact ⟨[], rfl, rfl⟩
  | cons item rest induction =>
      rcases each with _ | ⟨first, later⟩
      rcases first with ⟨expr, rfl, read, ⟨meaning, equal, rfl⟩, plain⟩
      rcases induction later with ⟨values, evaluated, same⟩
      refine ⟨meaning.value :: values, ?_, ?_⟩
      · rw [Expr.itemValues, equal, evaluated]
        rfl
      · rw [plainItems, normalItems, plain, same]

theorem readable_items {items : List Value} (readable : ∀ item ∈ items, item.slot.Readable) :
    (array items).phrase.Readable := by
  have slots : ∀ phrase ∈ items.map slot, phrase.Readable := by
    intro phrase member
    rcases List.mem_map.mp member with ⟨item, inside, rfl⟩
    exact readable item inside
  have read := readable_array slots
  rw [map_slot_lexemes, deepest_slots] at read
  refine read.imp fun expr meant => ?_
  rcases meant with ⟨position, exprs, rfl, each⟩
  rcases itemValues_of_meanEach each with ⟨values, evaluated, plain⟩
  refine ⟨.array values, ⟨.data (.array values), ?_, rfl⟩, ?_⟩
  · rw [Expr.meaning, evaluated]
    rfl
  · rw [Value.plain, normal, plain]

/-! ## Documents -/

def fieldPhrases : List (String × Value) → List (Phrase (String × Expr))
  | [] => []
  | (name, value) :: rest =>
      if value.isAbsent then fieldPhrases rest
      else value.phrase.field name (keyLexeme name) :: fieldPhrases rest

theorem map_fieldPhrases_lexemes (fields : List (String × Value)) :
    (fieldPhrases fields).map (·.lexemes) = fieldLexemes fields := by
  induction fields with
  | nil => rfl
  | cons field rest induction =>
      rcases field with ⟨name, value⟩
      rw [fieldPhrases, fieldLexemes, ← induction]
      split <;> rfl

theorem deepest_fieldPhrases (fields : List (String × Value)) :
    deepest (fieldPhrases fields) = needFields fields := by
  induction fields with
  | nil => rfl
  | cons field rest induction =>
      rcases field with ⟨name, value⟩
      rw [fieldPhrases, needFields, ← induction]
      split
      · rename_i absent
        cases value with
        | absent => exact (Nat.zero_max _).symm
        | _ => cases absent
      · rfl

theorem readable_fieldPhrases {fields : List (String × Value)}
    (readable : ∀ field ∈ fields, field.2.isAbsent = false → field.2.phrase.Readable) :
    ∀ phrase ∈ fieldPhrases fields, ∀ context room, phrase.ReadBy context room fun tokens =>
      outcome (field context (expression context room) tokens) := by
  induction fields with
  | nil =>
      intro phrase member
      cases member
  | cons field rest induction =>
      rcases field with ⟨name, value⟩
      have later := induction fun other member => readable other (List.mem_cons_of_mem _ member)
      intro phrase member
      rw [fieldPhrases] at member
      split at member
      · exact later phrase member
      · rename_i present
        rcases List.mem_cons.mp member with rfl | inside
        · have spelled : keyLexeme name = .word name ∨ keyLexeme name = .string name := by
            unfold keyLexeme
            split
            · exact .inl rfl
            · exact .inr rfl
          have first := readable (name, value) List.mem_cons_self (Bool.eq_false_iff.mpr present)
          exact first.field spelled
        · exact later phrase inside

theorem normal_ne_absent {value : Value} (present : ¬value.isAbsent = true) :
    value.normal ≠ .absent := by
  cases value with
  | absent => exact absurd rfl present
  | number number => cases number <;> simp [normal, normalNumber]
  | double number => cases number <;> simp [normal, normalNumber]
  | _ => simp [normal]

theorem fieldValues_of_meanEach {fields : List (String × Value)} {exprs : List (String × Expr)}
    (each : MeanEach (fieldPhrases fields) exprs) :
    ∃ values, Expr.fieldValues exprs = .ok values ∧ plainFields values = normalFields fields ∧
      (Fields.names values).Sublist (Fields.names fields) := by
  induction fields generalizing exprs with
  | nil =>
      cases each
      exact ⟨[], rfl, rfl, List.Sublist.refl _⟩
  | cons field rest induction =>
      rcases field with ⟨name, value⟩
      rw [fieldPhrases] at each
      rw [normalFields]
      split at each
      · rename_i absent
        rcases induction each with ⟨values, evaluated, same, names⟩
        rw [if_pos absent]
        exact ⟨values, evaluated, same, names.cons name⟩
      · rename_i present
        rcases each with _ | ⟨first, later⟩
        rename_i expr others
        rcases expr with ⟨key, expr⟩
        rcases first with ⟨rfl, read, ⟨meaning, equal, rfl⟩, plain⟩
        rcases induction later with ⟨values, evaluated, same, names⟩
        refine ⟨(key, meaning.value) :: values, ?_, ?_, names.cons_cons key⟩
        · rw [Expr.fieldValues, equal, evaluated]
          rfl
        · have data := normal_ne_absent present
          rw [if_neg present, plainFields, plain, same]
          split
          · exact absurd ‹_› data
          · rfl

theorem readable_fields {fields : List (String × Value)} (nodup : (Fields.names fields).Nodup)
    (readable : ∀ field ∈ fields, field.2.isAbsent = false → field.2.phrase.Readable) :
    (document fields).phrase.Readable := by
  have read := readable_object (readable_fieldPhrases readable)
  rw [map_fieldPhrases_lexemes, deepest_fieldPhrases] at read
  refine read.imp fun expr meant => ?_
  rcases meant with ⟨position, exprs, rfl, each⟩
  rcases fieldValues_of_meanEach each with ⟨values, evaluated, plain, names⟩
  have meaning : (Expr.object position exprs).meaning =
      .ok (.data (.document (Fields.ofPairs values))) := by
    rw [Expr.meaning, evaluated]
    rfl
  rw [Fields.ofPairs_of_nodup (nodup.sublist names)] at meaning
  refine ⟨.document values, ⟨_, meaning, rfl⟩, ?_⟩
  rw [Value.plain, normal, plain]

/-! ## All values -/

theorem readable_phrase {value : Value} (sound : value.Sound) (present : value.isAbsent = false) :
    value.phrase.Readable := by
  induction value using Value.induction with
  | scalar value scalar =>
      exact readable_scalar scalar ((everywhere_scalar scalar).mp sound) present
  | array items induction =>
      have inside := (everywhere_array.mp sound).2
      exact readable_items fun item member =>
        readable_slot fun present => induction item member (inside item member) present
  | document fields induction =>
      rcases everywhere_document.mp sound with ⟨nodup, inside⟩
      exact readable_fields nodup fun field member present =>
        induction field member (inside field member) present

theorem ofShell_of_tokens {limit : Nat} {text : String} {tokens : List Token} {finish : Position}
    (scanned : Token.scan text = .ok (tokens, finish)) :
    ofShell limit text = (Expr.ofTokens limit tokens finish).bind fun found =>
      match found with
      | some expr => expr.evaluate
      | none => .ok .absent := by
  simp only [ofShell, Expr.parse, scanned]
  rfl

/-- Tokens of one phrase make up one expression, if there is enough room. -/
theorem ofTokens_of_readable {phrase : Phrase Expr} (readable : phrase.Readable)
    {tokens : List Token} (lexemes : tokens.map (·.lexeme) = phrase.lexemes) (limit : Nat)
    (finish : Position) :
    (phrase.need ≤ limit ∧ ∃ expr, phrase.means expr ∧
      Expr.ofTokens limit tokens finish = .ok (some expr)) ∨
    (¬phrase.need ≤ limit ∧ ∃ position, Expr.ofTokens limit tokens finish =
      .error (.unreadable (.tooDeep limit) position)) := by
  have reads := readable ⟨limit, finish⟩ limit
  rcases reads.exists_cons lexemes with ⟨first, more, rfl, noStop⟩
  have noSemicolon : first.lexeme ≠ .mark .semicolon := by
    intro semicolon
    rw [semicolon] at noStop
    exact noStop (by decide)
  have settled : Settled [] := by
    intro token member
    cases member
  have yields := reads.yields (first :: more) [] lexemes settled
  rw [List.append_nil] at yields
  rw [Expr.ofTokens_cons limit noSemicolon]
  rcases yields with ⟨room, expr, meant, equal⟩ | ⟨short, position, equal⟩
  · rw [equal]
    exact .inl ⟨room, expr, meant, rfl⟩
  · rw [equal]
    exact .inr ⟨short, position, rfl⟩

section

variable {value : Value} (sound : value.Sound) {text : String} {tokens : List Token}
  {finish : Position} (scanned : Token.scan text = .ok (tokens, finish))
  (lexemes : tokens.map (·.lexeme) = value.lexemes) {limit : Nat}

include sound scanned lexemes

/-- A text with the lexemes of a value is read as the normal form of that value. -/
theorem ofShell_of_lexemes (room : value.need ≤ limit) : ofShell limit text = .ok value.normal := by
  rw [ofShell_of_tokens scanned]
  cases absent : value.isAbsent with
  | true =>
      cases value with
      | absent =>
          rw [List.map_eq_nil_iff.mp lexemes]
          rfl
      | _ => cases absent
  | false =>
      rcases ofTokens_of_readable (readable_phrase sound absent) lexemes limit finish with
        ⟨_, expr, ⟨read, ⟨meaning, evaluated, rfl⟩, plain⟩, equal⟩ | ⟨short, _⟩
      · have same : meaning.value.plain = value.normal := plain
        rw [equal, ← same]
        change expr.evaluate = _
        rw [Expr.evaluate, evaluated]
        rfl
      · exact absurd room short

theorem tooDeep_of_lexemes (short : limit < value.need) :
    ∃ position, ofShell limit text = .error (.unreadable (.tooDeep limit) position) := by
  have present : value.isAbsent = false := by
    cases value with
    | absent => exact absurd short (Nat.not_lt_zero limit)
    | _ => rfl
  rcases ofTokens_of_readable (readable_phrase sound present) lexemes limit finish with
    ⟨room, _⟩ | ⟨_, position, equal⟩
  · exact absurd room (Nat.not_le.mpr short)
  · refine ⟨position, ?_⟩
    rw [ofShell_of_tokens scanned, equal]
    rfl

end

/-- With enough levels, a written value is read in its normal form. -/
theorem ofShell_shellText_of_le {value : Value} (sound : value.Sound) (closed : value.Closed)
    (indent : Nat) {limit : Nat} (room : value.need ≤ limit) :
    ofShell limit (value.shellText indent) = .ok value.normal := by
  rcases scan_shellText sound closed indent with ⟨tokens, finish, scanned, lexemes⟩
  exact ofShell_of_lexemes sound scanned lexemes room

/-- Without enough levels, a written value is refused for its depth. -/
theorem ofShell_shellText_of_lt {value : Value} (sound : value.Sound) (closed : value.Closed)
    (indent : Nat) {limit : Nat} (short : limit < value.need) :
    ∃ position, ofShell limit (value.shellText indent) =
      .error (.unreadable (.tooDeep limit) position) := by
  rcases scan_shellText sound closed indent with ⟨tokens, finish, scanned, lexemes⟩
  exact tooDeep_of_lexemes sound scanned lexemes short

/-- The text of a value is read as the normal form of the value, or it is refused for
its depth: which of the two depends on the levels of the value alone. -/
theorem ofShell_shellText {value : Value} (sound : value.Sound) (closed : value.Closed)
    (indent limit : Nat) :
    (value.need ≤ limit → ofShell limit (value.shellText indent) = .ok value.normal) ∧
      (limit < value.need → ∃ position, ofShell limit (value.shellText indent) =
        .error (.unreadable (.tooDeep limit) position)) :=
  ⟨ofShell_shellText_of_le sound closed indent, ofShell_shellText_of_lt sound closed indent⟩

theorem ofShell_shellText_slashClass :
    ofShell 3 ((array [.regex ⟨"[/]", "i"⟩, .absent]).shellText 2) =
      .ok (.array [.regex ⟨"[/]", "i"⟩, .null]) := by
  have sound : (array [.regex ⟨"[/]", "i"⟩, .absent]).Sound := ⟨trivial, rfl, trivial, trivial⟩
  have closed : (array [.regex ⟨"[/]", "i"⟩, .absent]).Closed := ⟨trivial, rfl, trivial, trivial⟩
  exact (ofShell_shellText sound closed 2 3).1 (by decide)

end Value

end DocShell
