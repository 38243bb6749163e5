import DocShell.Proofs.Expr.Outcome
import DocShell.Proofs.Token.Parts

namespace DocShell.Reader

/-! # Phrases

A phrase is a run of lexemes that readers recognise, with the room that this takes.
Short of that room a reader fails, and the only failure is that the text nests too
deeply. Phrases are built up in the way expressions are. -/

structure Phrase (ι : Type) where
  lexemes : List Lexeme
  /-- The levels that reading the phrase takes. -/
  need : Nat
  /-- What holds of the item that is read. -/
  means : ι → Prop

/-- An item and a rest if there is enough room, and else a failure for want of it. -/
def Yields {ι : Type} (context : Context) (enough : Prop) (means : ι → Prop) (rest : List Token)
    (result : Except Failure (ι × List Token)) : Prop :=
  (enough ∧ ∃ item, means item ∧ result = .ok (item, rest)) ∨
    (¬enough ∧ ∃ position, result = .error (.unreadable (.tooDeep context.limit) position))

def Settled (tokens : List Token) : Prop :=
  ∀ token ∈ tokens.head?,
    token.lexeme ∉ [.mark .dot, .mark .bracketOpen, .mark .parenOpen]

/-- The lexemes with which no phrase begins: those that stand behind one. -/
def stops : List Lexeme :=
  [.mark .comma, .mark .parenClose, .mark .bracketClose, .mark .braceClose, .mark .semicolon]

structure Phrase.ReadBy {ι : Type} (context : Context) (room : Nat)
    (read : List Token → Except Failure (ι × List Token)) (phrase : Phrase ι) : Prop where
  starts : ∃ first more, phrase.lexemes = first :: more ∧ first ∉ stops
  yields : ∀ tokens rest, tokens.map (·.lexeme) = phrase.lexemes → Settled rest →
    Yields context (phrase.need ≤ room) phrase.means rest (read (tokens ++ rest))

def Phrase.Readable (phrase : Phrase Expr) : Prop :=
  ∀ context room, phrase.ReadBy context room fun tokens => outcome (expression context room tokens)

section

variable {ι κ : Type} {context : Context} {enough : Prop} {means : ι → Prop} {rest : List Token}
  {result : Except Failure (ι × List Token)}

theorem yields_tooDeep (short : ¬enough) (tokens : List Token) :
    Yields context enough means rest (.error (context.tooDeep tokens)) :=
  .inr ⟨short, _, rfl⟩

theorem yields_ok {item : ι} (room : enough) (good : means item) :
    Yields context enough means rest (.ok (item, rest)) :=
  .inl ⟨room, item, good, rfl⟩

theorem Yields.imp {other : ι → Prop} (yields : Yields context enough means rest result)
    (implies : ∀ item, means item → other item) : Yields context enough other rest result := by
  rcases yields with ⟨room, item, good, equal⟩ | failed
  · exact .inl ⟨room, item, implies item good, equal⟩
  · exact .inr failed

theorem Yields.of_iff {other : Prop} (yields : Yields context enough means rest result)
    (same : enough ↔ other) : Yields context other means rest result := by
  rwa [Yields, same] at yields

/-- What is done with an item that is read. -/
theorem Yields.bind {other : Prop} {good : κ → Prop} {behind : List Token}
    {next : ι × List Token → Except Failure (κ × List Token)}
    (yields : Yields context enough means rest result) (needed : other → enough)
    (onward : enough → ∀ item, means item → Yields context other good behind (next (item, rest))) :
    Yields context other good behind (result.bind next) := by
  rcases yields with ⟨room, item, meant, rfl⟩ | ⟨short, position, rfl⟩
  · exact onward room item meant
  · exact .inr ⟨fun other => short (needed other), position, rfl⟩

theorem Yields.map {good : κ → Prop} {transform : ι × List Token → κ × List Token}
    {behind : List Token} (yields : Yields context enough means rest result)
    (onward : ∀ item, means item → ∃ other, transform (item, rest) = (other, behind) ∧ good other) :
    Yields context enough good behind (result.map transform) := by
  rcases yields with ⟨room, item, meant, rfl⟩ | ⟨short, position, rfl⟩
  · rcases onward item meant with ⟨other, equal, good⟩
    refine .inl ⟨room, other, good, ?_⟩
    rw [← equal]
    rfl
  · exact .inr ⟨short, position, rfl⟩

end

/-! ## Lists of phrases -/

def deepest {ι : Type} : List (Phrase ι) → Nat
  | [] => 0
  | phrase :: rest => max phrase.need (deepest rest)

theorem deepest_le {ι : Type} {phrases : List (Phrase ι)} {bound : Nat} :
    deepest phrases ≤ bound ↔ ∀ phrase ∈ phrases, phrase.need ≤ bound := by
  induction phrases with
  | nil => simp [deepest]
  | cons phrase rest induction => simp [deepest, induction]

inductive MeanEach {ι : Type} : List (Phrase ι) → List ι → Prop
  | nil : MeanEach [] []
  | cons {phrase : Phrase ι} {item : ι} {phrases : List (Phrase ι)} {items : List ι}
      (first : phrase.means item) (later : MeanEach phrases items) :
      MeanEach (phrase :: phrases) (item :: items)

theorem after?_of_ne {expected : Mark} {token : Token} (different : token.lexeme ≠ .mark expected)
    (rest : List Token) : after? expected (token :: rest) = none := by
  rw [after?, if_neg different]

theorem after?_of_eq {expected : Mark} {token : Token} (equal : token.lexeme = .mark expected)
    (rest : List Token) : after? expected (token :: rest) = some rest := by
  rw [after?, if_pos equal]

theorem settled_cons {token : Token} {rest : List Token}
    (other : token.lexeme ∉ [.mark .dot, .mark .bracketOpen, .mark .parenOpen]) :
    Settled (token :: rest) := by
  intro first member
  cases member
  exact other

theorem map_lexeme_append {tokens : List Token} {front back : List Lexeme}
    (lexemes : tokens.map (·.lexeme) = front ++ back) :
    ∃ first second, tokens = first ++ second ∧ first.map (·.lexeme) = front ∧
      second.map (·.lexeme) = back := by
  rcases List.map_eq_append_iff.mp lexemes with ⟨first, second, rfl, front, back⟩
  exact ⟨first, second, rfl, front, back⟩

/-- Tokens of a phrase and the first of them. -/
theorem Phrase.ReadBy.exists_cons {ι : Type} {context : Context} {room : Nat}
    {read : List Token → Except Failure (ι × List Token)} {phrase : Phrase ι}
    (readable : phrase.ReadBy context room read) {tokens : List Token}
    (lexemes : tokens.map (·.lexeme) = phrase.lexemes) :
    ∃ first more, tokens = first :: more ∧ first.lexeme ∉ stops := by
  rcases readable.starts with ⟨first, more, equal, noStop⟩
  rw [equal] at lexemes
  rcases List.map_eq_cons_iff.mp lexemes with ⟨token, behind, rfl, rfl, _⟩
  exact ⟨token, behind, rfl, noStop⟩

section

variable {ι : Type} {context : Context} {room : Nat} {closing : Mark}
  (each : List Token → Except Failure (ι × List Token))
  (all : List Token → Except Failure (List ι × List Token))

/-- A list with commas and a closing mark is read item by item. -/
theorem yields_separated
    (closes : closing ∈ [Mark.parenClose, .bracketClose, .braceClose])
    (finish : ∀ token rest, token.lexeme = .mark closing → all (token :: rest) = .ok ([], rest))
    (step : ∀ token rest, token.lexeme ∉ stops →
      all (token :: rest) = (each (token :: rest)).bind fun found =>
        match after? .comma found.2 with
        | some rest => (all rest).map fun more => (found.1 :: more.1, more.2)
        | none => (expect context closing found.2).map fun rest => ([found.1], rest))
    {phrases : List (Phrase ι)} (readable : ∀ phrase ∈ phrases, phrase.ReadBy context room each)
    {tokens : List Token} (lexemes : tokens.map (·.lexeme) =
      Token.separated (phrases.map (·.lexemes)) ++ [.mark closing]) (rest : List Token) :
    Yields context (deepest phrases ≤ room) (MeanEach phrases) rest (all (tokens ++ rest)) := by
  have noComma : closing ≠ .comma := by
    rintro rfl
    simp at closes
  have noSuffix : Lexeme.mark closing ∉ [.mark .dot, .mark .bracketOpen, .mark .parenOpen] := by
    simp only [List.mem_cons, List.not_mem_nil, or_false] at closes
    rcases closes with rfl | rfl | rfl <;> decide
  -- The closing mark settles the last item, and a comma every other one.
  induction phrases generalizing tokens with
  | nil =>
      rcases List.map_eq_singleton_iff.mp lexemes with ⟨token, rfl, equal⟩
      rw [List.singleton_append, finish token rest equal]
      exact yields_ok (Nat.zero_le room) .nil
  | cons phrase phrases induction =>
      have first := readable phrase List.mem_cons_self
      cases phrases with
      | nil =>
          rcases map_lexeme_append lexemes with ⟨front, back, rfl, frontEqual, backEqual⟩
          rcases List.map_eq_singleton_iff.mp backEqual with ⟨token, rfl, equal⟩
          rcases first.exists_cons frontEqual with ⟨start, more, rfl, noStop⟩
          have settled : Settled (token :: rest) := settled_cons (equal ▸ noSuffix)
          have yields := first.yields _ _ frontEqual settled
          rw [List.append_assoc, List.singleton_append, List.cons_append, step _ _ noStop]
          refine yields.bind (fun enough => (Nat.max_le.mp enough).1) fun enough item meant => ?_
          have comma : token.lexeme ≠ .mark .comma := by
            rw [equal]
            simpa using noComma
          simp only [after?_of_ne comma, expect, after?_of_eq equal]
          exact yields_ok (Nat.max_le.mpr ⟨enough, Nat.zero_le room⟩) (.cons meant .nil)
      | cons second others =>
          rw [List.map_cons, List.map_cons, Token.separated, List.append_assoc] at lexemes
          · rcases map_lexeme_append lexemes with ⟨front, back, rfl, frontEqual, backEqual⟩
            rcases List.map_eq_cons_iff.mp backEqual with ⟨token, behind, rfl, equal, behindEqual⟩
            rcases first.exists_cons frontEqual with ⟨start, more, rfl, noStop⟩
            have settled : Settled (token :: (behind ++ rest)) := settled_cons (equal ▸ by decide)
            have yields := first.yields _ _ frontEqual settled
            rw [List.append_assoc, List.cons_append, List.cons_append, step _ _ noStop]
            refine yields.bind (fun enough => (Nat.max_le.mp enough).1) fun enough item meant => ?_
            simp only [after?_of_eq equal]
            have later := induction
              (fun other member => readable other (List.mem_cons_of_mem _ member)) behindEqual
            refine (later.of_iff ?_).map fun items others => ⟨_, rfl, .cons meant others⟩
            exact ⟨fun rest => Nat.max_le.mpr ⟨enough, rest⟩, fun both => (Nat.max_le.mp both).2⟩
          · exact fun empty => by cases empty

end

/-! ## Expressions -/

theorem outcome_suffixes_settled (context : Context) (room : Nat) (owner : Expr)
    {tokens : List Token} (settled : Settled tokens) :
    outcome (suffixes context room owner tokens) = .ok (owner, tokens) := by
  cases tokens with
  | nil => exact outcome_suffixes_nil context room owner
  | cons token rest =>
      have other := settled token rfl
      simp only [List.mem_cons, List.not_mem_nil, or_false, not_or] at other
      cases room with
      | zero =>
          rw [outcome_suffixes_zero, after?_of_ne other.1, after?_of_ne other.2.1,
            after?_of_ne other.2.2]
          rfl
      | succ room =>
          rw [outcome_suffixes]
          split
          · exact absurd ‹_› other.1
          · exact absurd ‹_› other.2.1
          · exact absurd ‹_› other.2.2
          · rfl

/-- An expression that is one token. -/
theorem readable_token {lexeme : Lexeme} (make : Position → Expr) (noStop : lexeme ∉ stops)
    (noSign : sign? lexeme = none)
    (reads : ∀ context group nested construct token rest, token.lexeme = lexeme →
      outcome (primary context group nested construct (token :: rest)) =
        .ok (make token.position, rest)) :
    Phrase.Readable ⟨[lexeme], 1, fun expr => ∃ position, expr = make position⟩ := by
  intro context room
  refine ⟨⟨lexeme, [], rfl, noStop⟩, fun tokens rest lexemes settled => ?_⟩
  rcases List.map_eq_singleton_iff.mp lexemes with ⟨token, rfl, equal⟩
  rw [List.singleton_append]
  cases room with
  | zero =>
      rw [outcome_expression_zero]
      exact yields_tooDeep (Nat.not_succ_le_zero 0) _
  | succ room =>
      rw [outcome_expression, equal, noSign]
      simp only [reads _ _ _ _ token rest equal]
      refine .inl ⟨Nat.succ_le_succ (Nat.zero_le room), _, ⟨token.position, rfl⟩, ?_⟩
      exact outcome_suffixes_settled context room _ settled

/-- A sign before an expression. -/
theorem Phrase.Readable.signed {phrase : Phrase Expr} (readable : phrase.Readable) (sign : Sign) :
    Phrase.Readable ⟨.mark sign.mark :: phrase.lexemes, phrase.need + 1, fun expr =>
      ∃ position operand, expr = .signed position sign operand ∧ phrase.means operand⟩ := by
  have noStop : Lexeme.mark sign.mark ∉ stops := by cases sign <;> decide
  have isSign : sign? (.mark sign.mark) = some sign := by cases sign <;> rfl
  intro context room
  refine ⟨⟨.mark sign.mark, _, rfl, noStop⟩, fun tokens rest lexemes settled => ?_⟩
  rcases List.map_eq_cons_iff.mp lexemes with ⟨token, behind, rfl, equal, operand⟩
  rw [List.cons_append]
  cases room with
  | zero =>
      rw [outcome_expression_zero]
      exact yields_tooDeep (Nat.not_succ_le_zero _) _
  | succ room =>
      rw [outcome_expression, equal, isSign]
      have yields := (readable context room).yields behind rest operand settled
      refine (yields.of_iff Nat.succ_le_succ_iff.symm).map fun expr meant => ?_
      exact ⟨_, rfl, _, _, rfl, meant⟩

theorem not_mem_stops {token : Token} (noStop : token.lexeme ∉ stops) :
    token.lexeme ≠ .mark .comma ∧ token.lexeme ≠ .mark .parenClose ∧
      token.lexeme ≠ .mark .bracketClose ∧ token.lexeme ≠ .mark .braceClose := by
  simp only [stops, List.mem_cons, List.not_mem_nil, or_false, not_or] at noStop
  exact ⟨noStop.1, noStop.2.1, noStop.2.2.1, noStop.2.2.2.1⟩

def Phrase.item (phrase : Phrase Expr) : Phrase (Option Expr) :=
  ⟨phrase.lexemes, phrase.need, fun item => ∃ expr, item = some expr ∧ phrase.means expr⟩

def Phrase.field (name : String) (key : Lexeme) (phrase : Phrase Expr) : Phrase (String × Expr) :=
  ⟨key :: .mark .colon :: phrase.lexemes, phrase.need,
    fun field => field.1 = name ∧ phrase.means field.2⟩

theorem Phrase.Readable.item {phrase : Phrase Expr} (readable : phrase.Readable) (context : Context)
    (room : Nat) : phrase.item.ReadBy context room fun tokens =>
      (outcome (expression context room tokens)).map fun found => (some found.1, found.2) := by
  have reads := readable context room
  refine ⟨reads.starts, fun tokens rest lexemes settled => ?_⟩
  exact (reads.yields tokens rest lexemes settled).map fun expr meant => ⟨_, rfl, expr, rfl, meant⟩

theorem outcome_keyed_colon (context : Context) (read : Of Expr) (key : String) {colon : Token}
    (equal : colon.lexeme = .mark .colon) (rest : List Token) :
    outcome (keyed context read key (colon :: rest)) =
      (outcome (read rest)).map fun found => ((key, found.1), found.2) := by
  rw [outcome_keyed, expect, after?_of_eq equal]
  rfl

theorem outcome_field_keyed (context : Context) (read : Of Expr) {key colon : Token} {name : String}
    (spelled : key.lexeme = .word name ∨ key.lexeme = .string name)
    (equal : colon.lexeme = .mark .colon) (rest : List Token) :
    outcome (field context read (key :: colon :: rest)) =
      (outcome (read rest)).map fun found => ((name, found.1), found.2) := by
  have colonNext : (after? .colon (colon :: rest)).isSome = true := by
    rw [after?_of_eq equal]
    rfl
  rw [outcome_field]
  rcases spelled with word | string
  · rw [word]
    simp only [colonNext, if_true]
    exact outcome_keyed_colon context read name equal rest
  · rw [string]
    exact outcome_keyed_colon context read name equal rest

theorem Phrase.Readable.field {phrase : Phrase Expr} (readable : phrase.Readable) {name : String}
    {key : Lexeme} (spelled : key = .word name ∨ key = .string name) (context : Context)
    (room : Nat) : (phrase.field name key).ReadBy context room fun tokens =>
      outcome (Reader.field context (expression context room) tokens) := by
  refine ⟨⟨key, _, rfl, ?_⟩, fun tokens rest lexemes settled => ?_⟩
  · rcases spelled with rfl | rfl <;> simp [stops]
  · rcases List.map_eq_cons_iff.mp lexemes with ⟨first, more, rfl, rfl, behind⟩
    rcases List.map_eq_cons_iff.mp behind with ⟨colon, inner, rfl, equal, phraseTokens⟩
    rw [List.cons_append, List.cons_append, outcome_field_keyed context _ spelled equal]
    have yields := (readable context room).yields inner rest phraseTokens settled
    exact yields.map fun expr meant => ⟨_, rfl, rfl, meant⟩

theorem yields_arguments {phrases : List (Phrase Expr)}
    (readable : ∀ phrase ∈ phrases, phrase.Readable) (context : Context) (room : Nat)
    {tokens : List Token} (lexemes : tokens.map (·.lexeme) =
      Token.separated (phrases.map (·.lexemes)) ++ [.mark .parenClose]) (rest : List Token) :
    Yields context (deepest phrases ≤ room) (MeanEach phrases) rest
      (outcome (arguments context (expression context room) (tokens ++ rest))) := by
  refine yields_separated (fun tokens => outcome (expression context room tokens))
    (fun tokens => outcome (arguments context (expression context room) tokens)) (by decide)
    (fun token rest equal => ?_) (fun token rest noStop => ?_)
    (fun phrase member => readable phrase member context room) lexemes rest
  · simp only [outcome_arguments, after?_of_eq equal]
  · have equation := outcome_arguments context (expression context room) (token :: rest)
    rw [after?_of_ne (not_mem_stops noStop).2.1] at equation
    exact equation

theorem yields_items {phrases : List (Phrase (Option Expr))} {context : Context} {room : Nat}
    (readable : ∀ phrase ∈ phrases, phrase.ReadBy context room fun tokens =>
      (outcome (expression context room tokens)).map fun found => (some found.1, found.2))
    {tokens : List Token} (lexemes : tokens.map (·.lexeme) =
      Token.separated (phrases.map (·.lexemes)) ++ [.mark .bracketClose]) (rest : List Token) :
    Yields context (deepest phrases ≤ room) (MeanEach phrases) rest
      (outcome (items context (expression context room) (tokens ++ rest))) := by
  refine yields_separated _
    (fun tokens => outcome (items context (expression context room) tokens)) (by decide)
    (fun token rest equal => ?_) (fun token rest noStop => ?_) readable lexemes rest
  · simp only [outcome_items, after?_of_eq equal]
  · simp only [outcome_items context _ (token :: rest), after?_of_ne (not_mem_stops noStop).2.2.1,
      after?_of_ne (not_mem_stops noStop).1]
    cases outcome (expression context room (token :: rest)) <;> rfl

theorem yields_fields {phrases : List (Phrase (String × Expr))} {context : Context} {room : Nat}
    (readable : ∀ phrase ∈ phrases, phrase.ReadBy context room fun tokens =>
      outcome (field context (expression context room) tokens))
    {tokens : List Token} (lexemes : tokens.map (·.lexeme) =
      Token.separated (phrases.map (·.lexemes)) ++ [.mark .braceClose]) (rest : List Token) :
    Yields context (deepest phrases ≤ room) (MeanEach phrases) rest
      (outcome (fields context (expression context room) (tokens ++ rest))) := by
  refine yields_separated _
    (fun tokens => outcome (fields context (expression context room) tokens)) (by decide)
    (fun token rest equal => ?_) (fun token rest noStop => ?_) readable lexemes rest
  · simp only [outcome_fields, after?_of_eq equal]
  · have equation := outcome_fields context (expression context room) (token :: rest)
    rw [after?_of_ne (not_mem_stops noStop).2.2.2] at equation
    exact equation

/-- What stands in brackets takes two levels besides its own. -/
theorem readable_nested {ι : Type} {opening : Mark} {phrases : List (Phrase ι)}
    {lexemes : List Lexeme} {make : Position → List ι → Expr}
    (inner : Context → Nat → List Token → Except Failure (List ι × List Token))
    (noStop : Lexeme.mark opening ∉ stops) (noSign : sign? (.mark opening) = none)
    (short : ∀ context group construct token rest, token.lexeme = .mark opening →
      outcome (primary context group none construct (token :: rest)) = .error (context.tooDeep rest))
    (deep : ∀ context room group construct token rest, token.lexeme = .mark opening →
      outcome (primary context group (some (expression context room)) construct (token :: rest)) =
        (inner context room rest).map fun found => (make token.position found.1, found.2))
    (yields : ∀ context room (tokens rest : List Token), tokens.map (·.lexeme) = lexemes →
      Yields context (deepest phrases ≤ room) (MeanEach phrases) rest
        (inner context room (tokens ++ rest))) :
    Phrase.Readable ⟨.mark opening :: lexemes, 2 + deepest phrases, fun expr =>
      ∃ position items, expr = make position items ∧ MeanEach phrases items⟩ := by
  intro context room
  refine ⟨⟨.mark opening, _, rfl, noStop⟩, fun tokens rest spelled settled => ?_⟩
  rcases List.map_eq_cons_iff.mp spelled with ⟨token, behind, rfl, equal, inside⟩
  rw [List.cons_append]
  match room with
  | 0 =>
      have none : ¬2 + deepest phrases ≤ 0 := by omega
      rw [outcome_expression_zero]
      exact yields_tooDeep none _
  | 1 =>
      have one : ¬2 + deepest phrases ≤ 1 := by omega
      rw [outcome_expression, equal, noSign]
      simp only [nested, short context _ _ token _ equal]
      exact yields_tooDeep one _
  | room + 2 =>
      rw [outcome_expression, equal, noSign]
      simp only [nested, deep context room _ _ token _ equal]
      have same : deepest phrases ≤ room ↔ 2 + deepest phrases ≤ room + 2 := by omega
      have read : Yields context (2 + deepest phrases ≤ room + 2)
          (fun expr => ∃ position items, expr = make position items ∧ MeanEach phrases items) rest
          ((inner context room (behind ++ rest)).map fun found =>
            (make token.position found.1, found.2)) :=
        ((yields context room behind rest inside).of_iff same).map fun items meant =>
          ⟨_, rfl, token.position, items, rfl, meant⟩
      refine read.bind id fun enough expr meant => ?_
      dsimp only
      rw [outcome_suffixes_settled context (room + 1) expr settled]
      exact yields_ok enough meant

theorem readable_array {phrases : List (Phrase Expr)}
    (readable : ∀ phrase ∈ phrases, phrase.Readable) :
    Phrase.Readable ⟨.mark .bracketOpen ::
        (Token.separated ((phrases.map Phrase.item).map (·.lexemes)) ++ [.mark .bracketClose]),
      2 + deepest (phrases.map Phrase.item), fun expr => ∃ position items,
        expr = .array position items ∧ MeanEach (phrases.map Phrase.item) items⟩ := by
  refine readable_nested
    (fun context room tokens => outcome (items context (expression context room) tokens))
    (by decide) rfl ?_ ?_ fun context room tokens rest lexemes => yields_items ?_ lexemes rest
  · intro context group construct token rest equal
    rw [outcome_primary, equal]
  · intro context room group construct token rest equal
    rw [outcome_primary, equal]
  · intro item member
    rcases List.mem_map.mp member with ⟨phrase, inside, rfl⟩
    exact (readable phrase inside).item context room

theorem readable_object {phrases : List (Phrase (String × Expr))}
    (readable : ∀ phrase ∈ phrases, ∀ context room, phrase.ReadBy context room fun tokens =>
      outcome (field context (expression context room) tokens)) :
    Phrase.Readable ⟨.mark .braceOpen ::
        (Token.separated (phrases.map (·.lexemes)) ++ [.mark .braceClose]),
      2 + deepest phrases, fun expr => ∃ position fields,
        expr = .object position fields ∧ MeanEach phrases fields⟩ := by
  refine readable_nested
    (fun context room tokens => outcome (fields context (expression context room) tokens))
    (by decide) rfl ?_ ?_ fun context room tokens rest lexemes =>
    yields_fields (fun phrase member => readable phrase member context room) lexemes rest
  · intro context group construct token rest equal
    rw [outcome_primary, equal]
  · intro context room group construct token rest equal
    rw [outcome_primary, equal]

/-- A call of a name that is no keyword. -/
theorem readable_call {label : String} (noKeyword : keyword? label = none) (noNew : label ≠ "new")
    {phrases : List (Phrase Expr)} (readable : ∀ phrase ∈ phrases, phrase.Readable) :
    Phrase.Readable ⟨.word label :: .mark .parenOpen ::
        (Token.separated (phrases.map (·.lexemes)) ++ [.mark .parenClose]),
      2 + deepest phrases, fun expr => ∃ position start given,
        expr = .call position (.name start label) given ∧ MeanEach phrases given⟩ := by
  intro context room
  refine ⟨⟨.word label, _, rfl, by simp [stops]⟩, fun tokens rest spelled settled => ?_⟩
  rcases List.map_eq_cons_iff.mp spelled with ⟨token, behind, rfl, equal, call⟩
  rcases List.map_eq_cons_iff.mp call with ⟨opening, given, rfl, opens, inside⟩
  have name (room : Nat) (rest : List Token) :
      outcome (expression context (room + 1) (token :: rest)) =
        outcome (suffixes context room (.name token.position label) rest) := by
    rw [outcome_expression, outcome_primary, equal]
    simp only [sign?, noKeyword, noNew, if_false]
    rfl
  rw [List.cons_append, List.cons_append]
  match room with
  | 0 =>
      have none : ¬2 + deepest phrases ≤ 0 := by omega
      rw [outcome_expression_zero]
      exact yields_tooDeep none _
  | 1 =>
      have one : ¬2 + deepest phrases ≤ 1 := by omega
      rw [name, outcome_suffixes_zero, after?_of_eq opens, Option.isSome_some, Bool.or_true,
        if_pos rfl]
      exact yields_tooDeep one _
  | room + 2 =>
      have same : deepest phrases ≤ room ↔ 2 + deepest phrases ≤ room + 2 := by omega
      have read := (yields_arguments readable context room inside rest).of_iff same
      rw [name, outcome_suffixes, opens]
      refine read.bind id fun enough given meant => ?_
      dsimp only
      rw [outcome_suffixes_settled context room _ settled]
      exact yields_ok enough ⟨_, _, given, rfl, meant⟩

end DocShell.Reader
