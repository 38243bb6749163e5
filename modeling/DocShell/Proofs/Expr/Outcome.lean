import DocShell.Expr.Reading

namespace DocShell.Reader

/-! # What readers find

The equations of the readers, without the bound on the rest that they carry along.
All that is proved about readers starts from these equations. -/

def outcome {ι : Type} {bound : Nat} : Result ι bound → Except Failure (ι × List Token)
  | .ok taken => .ok (taken.item, taken.rest)
  | .error failure => .error failure

def after? (expected : Mark) : List Token → Option (List Token)
  | [] => none
  | token :: rest => if token.lexeme = .mark expected then some rest else none

def expect (context : Context) (expected : Mark) (tokens : List Token) :
    Except Failure (List Token) :=
  match after? expected tokens with
  | some rest => .ok rest
  | none => .error (context.unexpected tokens)

section

variable {ι κ : Type} {bound larger : Nat}

theorem outcome_widen (result : Result ι bound) (fits : bound ≤ larger) :
    outcome (result.map (·.widen fits)) = outcome result := by
  cases result <;> rfl

theorem outcome_map (result : Result ι bound) (transform : ι → κ) (fits : bound ≤ larger) :
    outcome (result.bind fun taken => .ok ((taken.map transform).widen fits)) =
      (outcome result).map fun found => (transform found.1, found.2) := by
  cases result <;> rfl

theorem outcome_map_widen (result : Result ι bound) (transform : ι → κ) (fits : bound ≤ larger) :
    outcome (result.map fun taken => (taken.map transform).widen fits) =
      (outcome result).map fun found => (transform found.1, found.2) := by
  cases result <;> rfl

theorem outcome_widen_bind (result : Result ι bound) (fits : bound ≤ larger) :
    outcome (result.bind fun taken => .ok (taken.widen fits)) = outcome result := by
  cases result <;> rfl

/-- What a reader does with the result of another one depends on the outcome only. -/
theorem outcome_bind {result : Result ι bound} {next : Taken ι Token bound → Result κ larger}
    {onward : ι × List Token → Except Failure (κ × List Token)}
    (agree : ∀ taken, outcome (next taken) = onward (taken.item, taken.rest)) :
    outcome (result.bind next) = (outcome result).bind onward := by
  cases result with
  | error failure => rfl
  | ok taken => exact agree taken

end

theorem after?_eq (expected : Mark) (tokens : List Token) :
    after? expected tokens = (mark? expected tokens).map (·.rest) := by
  cases tokens with
  | nil => rfl
  | cons token rest =>
      rw [after?, mark?]
      split <;> rfl

theorem exists_of_after? {expected : Mark} {tokens rest : List Token}
    (found : after? expected tokens = some rest) :
    ∃ token, tokens = token :: rest ∧ token.lexeme = .mark expected := by
  cases tokens with
  | nil => cases found
  | cons token tokens =>
      rw [after?] at found
      split at found
      · cases found
        exact ⟨token, rfl, ‹_›⟩
      · cases found

theorem exists_of_expect {context : Context} {expected : Mark} {tokens rest : List Token}
    (found : expect context expected tokens = .ok rest) :
    ∃ token, tokens = token :: rest ∧ token.lexeme = .mark expected := by
  rw [expect] at found
  split at found
  · cases found
    exact exists_of_after? ‹_›
  · cases found

variable (context : Context) (read : Of Expr)

theorem outcome_mark (expected : Mark) (tokens : List Token) :
    outcome (mark context expected tokens) =
      (expect context expected tokens).map fun rest => ((), rest) := by
  rw [mark, expect, after?_eq]
  cases mark? expected tokens <;> rfl

/-! ## Lists of expressions -/

theorem outcome_closing {ι : Type} {bound : Nat} (expected : Mark) (item : ι) (tokens : List Token)
    (fits : tokens.length ≤ bound) :
    outcome ((mark context expected tokens).bind fun closed =>
      .ok ((closed.map fun _ => item).widen fits)) =
      (expect context expected tokens).map fun rest => (item, rest) := by
  rw [outcome_map, outcome_mark]
  cases expect context expected tokens <;> rfl

theorem outcome_arguments (tokens : List Token) :
    outcome (arguments context read tokens) =
      match after? .parenClose tokens with
      | some rest => .ok ([], rest)
      | none => (outcome (read tokens)).bind fun (argument, behind) =>
          match after? .comma behind with
          | some rest => (outcome (arguments context read rest)).map fun (more, rest) =>
              (argument :: more, rest)
          | none => (expect context .parenClose behind).map fun rest => ([argument], rest) := by
  rw [arguments, after?_eq]
  cases closed : mark? .parenClose tokens with
  | some taken => rfl
  | none =>
      refine outcome_bind fun taken => ?_
      rcases taken with ⟨argument, behind, shorter⟩
      simp only [after?_eq]
      cases mark? .comma behind with
      | some comma => exact outcome_map _ _ _
      | none => exact outcome_closing context .parenClose _ _ _

theorem outcome_items (tokens : List Token) :
    outcome (items context read tokens) =
      match after? .bracketClose tokens, after? .comma tokens with
      | some rest, _ => .ok ([], rest)
      | none, some rest => (outcome (items context read rest)).map fun (more, rest) =>
          (none :: more, rest)
      | none, none => (outcome (read tokens)).bind fun (item, behind) =>
          match after? .comma behind with
          | some rest => (outcome (items context read rest)).map fun (more, rest) =>
              (some item :: more, rest)
          | none => (expect context .bracketClose behind).map fun rest => ([some item], rest) := by
  rw [items, after?_eq, after?_eq]
  cases mark? .bracketClose tokens with
  | some taken => rfl
  | none =>
      cases mark? .comma tokens with
      | some comma => exact outcome_map _ _ _
      | none =>
          refine outcome_bind fun taken => ?_
          rcases taken with ⟨item, behind, shorter⟩
          simp only [after?_eq]
          cases mark? .comma behind with
          | some comma => exact outcome_map _ _ _
          | none => exact outcome_closing context .bracketClose _ _ _

theorem outcome_keyed (key : String) (tokens : List Token) :
    outcome (keyed context read key tokens) =
      (expect context .colon tokens).bind fun rest =>
        (outcome (read rest)).map fun (value, rest) => ((key, value), rest) := by
  rw [keyed, expect, after?_eq, mark]
  cases mark? .colon tokens with
  | none => rfl
  | some colon =>
      rcases colon with ⟨_, rest, shorter⟩
      exact outcome_map _ _ _

theorem outcome_field (token : Token) (rest : List Token) :
    outcome (field context read (token :: rest)) =
      match token.lexeme with
      | .word label =>
          if (after? .colon rest).isSome then outcome (keyed context read label rest)
          else .ok ((label, .name token.position label), rest)
      | .string text => outcome (keyed context read text rest)
      | .number written =>
          outcome (keyed context read (String.ofList written.value.shellText) rest)
      | _ => .error (context.unexpected (token :: rest)) := by
  rcases token with ⟨lexeme, position⟩
  have colon : (after? .colon rest).isSome = (mark? .colon rest).isSome := by
    rw [after?_eq, Option.isSome_map]
  cases lexeme with
  | word label =>
      simp only [field, colon]
      split
      · exact outcome_widen _ _
      · rfl
  | string text => exact outcome_widen _ _
  | number written => exact outcome_widen _ _
  | mark sign => rfl
  | regex source options => rfl

theorem outcome_fields (tokens : List Token) :
    outcome (fields context read tokens) =
      match after? .braceClose tokens with
      | some rest => .ok ([], rest)
      | none => (outcome (field context read tokens)).bind fun (entry, behind) =>
          match after? .comma behind with
          | some rest => (outcome (fields context read rest)).map fun (more, rest) =>
              (entry :: more, rest)
          | none => (expect context .braceClose behind).map fun rest => ([entry], rest) := by
  rw [fields, after?_eq]
  cases mark? .braceClose tokens with
  | some taken => rfl
  | none =>
      refine outcome_bind fun taken => ?_
      rcases taken with ⟨entry, behind, shorter⟩
      simp only [after?_eq]
      cases mark? .comma behind with
      | some comma => exact outcome_map _ _ _
      | none => exact outcome_closing context .braceClose _ _ _

/-! ## Expressions -/

def expectWord (context : Context) : List Token → Except Failure (String × List Token)
  | [] => .error (context.unexpected [])
  | token :: rest =>
      match token.lexeme with
      | .word label => .ok (label, rest)
      | _ => .error (context.unexpected (token :: rest))

theorem exists_of_expectWord {context : Context} {tokens rest : List Token} {label : String}
    (found : expectWord context tokens = .ok (label, rest)) :
    ∃ token, tokens = token :: rest ∧ token.lexeme = .word label := by
  cases tokens with
  | nil => cases found
  | cons token tokens =>
      rw [expectWord] at found
      split at found
      · cases found
        exact ⟨token, rfl, ‹_›⟩
      · cases found

theorem outcome_word (tokens : List Token) :
    outcome (word context tokens) = expectWord context tokens := by
  cases tokens with
  | nil => rfl
  | cons token rest =>
      rcases token with ⟨lexeme, position⟩
      cases lexeme <;> rfl

/-- A step that begins with a word. -/
theorem outcome_word_bind {ι : Type} {bound : Nat} (tokens : List Token)
    {next : Taken String Token tokens.length → Result ι bound}
    {onward : String × List Token → Except Failure (ι × List Token)}
    (agree : ∀ taken, outcome (next taken) = onward (taken.item, taken.rest)) :
    outcome ((word context tokens).bind next) = (expectWord context tokens).bind onward := by
  rw [← outcome_word]
  exact outcome_bind agree

theorem outcome_expect_bind {ι : Type} {bound : Nat} (expected : Mark) (tokens : List Token)
    {next : Taken Unit Token tokens.length → Result ι bound}
    {onward : List Token → Except Failure (ι × List Token)}
    (agree : ∀ taken, outcome (next taken) = onward taken.rest) :
    outcome ((mark context expected tokens).bind next) =
      (expect context expected tokens).bind onward := by
  rw [mark, expect, after?_eq]
  cases mark? expected tokens with
  | none => rfl
  | some taken => exact agree taken

theorem outcome_primary (group : Of Expr) (nested : Option (Of Expr))
    (construct : Position → Of Expr) (token : Token) (rest : List Token) :
    outcome (primary context group nested construct (token :: rest)) =
      match token.lexeme with
      | .number written => .ok (.literal token.position (.number written), rest)
      | .string text => .ok (.literal token.position (.string text), rest)
      | .regex source options => .ok (.literal token.position (.regex source options), rest)
      | .word label =>
          match keyword? label with
          | some literal => .ok (.literal token.position literal, rest)
          | none =>
              if label = "new" then outcome (construct token.position rest)
              else .ok (.name token.position label, rest)
      | .mark .parenOpen => (outcome (group rest)).bind fun (inner, behind) =>
          (expect context .parenClose behind).map fun rest => (inner, rest)
      | .mark .bracketOpen =>
          match nested with
          | some read => (outcome (items context read rest)).map fun (items, rest) =>
              (.array token.position items, rest)
          | none => .error (context.tooDeep rest)
      | .mark .braceOpen =>
          match nested with
          | some read => (outcome (fields context read rest)).map fun (fields, rest) =>
              (.object token.position fields, rest)
          | none => .error (context.tooDeep rest)
      | _ => .error (context.unexpected (token :: rest)) := by
  rcases token with ⟨lexeme, position⟩
  cases lexeme with
  | number written => rfl
  | string text => rfl
  | regex source options => rfl
  | word label =>
      simp only [primary]
      cases keyword? label with
      | some literal => rfl
      | none =>
          by_cases new : label = "new"
          · simp only [new, if_true]
            exact outcome_widen _ _
          · simp only [new, if_false]
            rfl
  | mark sign =>
      cases sign with
      | parenOpen =>
          refine outcome_bind fun taken => ?_
          exact outcome_closing context .parenClose _ _ _
      | bracketOpen =>
          cases nested with
          | some read => exact outcome_map_widen _ _ _
          | none => rfl
      | braceOpen =>
          cases nested with
          | some read => exact outcome_map_widen _ _ _
          | none => rfl
      | _ => rfl

def nested (context : Context) : (room : Nat) → Option (Of Expr)
  | 0 => none
  | room + 1 => some (expression context room)

theorem length_le_of_inside {inside behind tokens : List Token}
    (nearer : inside.length < behind.length) (shorter : behind.length < tokens.length) :
    inside.length ≤ tokens.length :=
  Nat.le_of_lt (Nat.lt_trans nearer shorter)

def construction (context : Context) (room : Nat) (position : Position) : Of Expr := fun tokens => do
  let ⟨label, behind, shorter⟩ ← word context tokens
  let callee := Expr.name (context.position tokens) label
  match mark? .parenOpen behind with
  | some ⟨_, inside, nearer⟩ =>
      let given ← arguments context (expression context room) inside
      .ok ((given.map (.new position callee)).widen (length_le_of_inside nearer shorter))
  | none =>
      let whole ← path context room position callee behind
      .ok (whole.widen shorter)

theorem outcome_expression_zero (tokens : List Token) :
    outcome (expression context 0 tokens) = .error (context.tooDeep tokens) := by
  rw [expression]
  rfl

/-- The two equations of the reader, which tell apart whether there is room for
anything nested, in one. -/
theorem expression_succ (room : Nat) :
    expression context (room + 1) = fun tokens =>
      match tokens with
      | [] => .error (context.unexpected [])
      | token :: rest =>
          match sign? token.lexeme with
          | some sign =>
              (expression context room rest).map fun operand =>
                (operand.map (.signed token.position sign)).widen (Nat.le_succ _)
          | none =>
              (primary context (expression context room) (nested context room)
                (construction context room) (token :: rest)).bind fun start =>
                  (suffixes context room start.item start.rest).bind fun whole =>
                    .ok (whole.widen start.shorter) := by
  cases room with
  | zero => exact expression.eq_2 context
  | succ room => exact expression.eq_3 context room

theorem outcome_expression_nil (room : Nat) :
    outcome (expression context (room + 1) []) = .error (context.unexpected []) := by
  rw [expression_succ]
  rfl

theorem outcome_expression (room : Nat) (token : Token) (rest : List Token) :
    outcome (expression context (room + 1) (token :: rest)) =
      match sign? token.lexeme with
      | some sign => (outcome (expression context room rest)).map fun (operand, behind) =>
          (.signed token.position sign operand, behind)
      | none =>
          (outcome (primary context (expression context room) (nested context room)
            (construction context room) (token :: rest))).bind fun (start, behind) =>
              outcome (suffixes context room start behind) := by
  rw [expression_succ]
  simp only
  cases sign? token.lexeme with
  | some sign => exact outcome_map_widen _ _ _
  | none =>
      refine outcome_bind fun taken => ?_
      rcases taken with ⟨start, behind, shorter⟩
      exact outcome_widen_bind _ _

theorem outcome_construction (room : Nat) (position : Position) (tokens : List Token) :
    outcome (construction context room position tokens) =
      (expectWord context tokens).bind fun (label, behind) =>
        match after? .parenOpen behind with
        | some inside =>
            (outcome (arguments context (expression context room) inside)).map fun (given, rest) =>
              (.new position (.name (context.position tokens) label) given, rest)
        | none =>
            outcome (path context room position (.name (context.position tokens) label) behind) := by
  refine outcome_word_bind context tokens fun taken => ?_
  rcases taken with ⟨label, behind, shorter⟩
  simp only [after?_eq]
  cases mark? .parenOpen behind with
  | some opened => exact outcome_map _ _ _
  | none => exact outcome_widen_bind _ _

theorem outcome_suffixes_zero (owner : Expr) (tokens : List Token) :
    outcome (suffixes context 0 owner tokens) =
      if (after? .dot tokens).isSome || (after? .bracketOpen tokens).isSome ||
          (after? .parenOpen tokens).isSome then .error (context.tooDeep tokens)
      else .ok (owner, tokens) := by
  simp only [suffixes, after?_eq, Option.isSome_map]
  split <;> rfl

theorem outcome_suffixes_nil (room : Nat) (owner : Expr) :
    outcome (suffixes context room owner []) = .ok (owner, []) := by
  cases room with
  | zero => rw [outcome_suffixes_zero]; rfl
  | succ room => rw [suffixes]; rfl

theorem outcome_suffixes (room : Nat) (owner : Expr) (token : Token) (rest : List Token) :
    outcome (suffixes context (room + 1) owner (token :: rest)) =
      match token.lexeme with
      | .mark .dot => (expectWord context rest).bind fun (label, behind) =>
          outcome (suffixes context room (.member token.position owner label) behind)
      | .mark .bracketOpen =>
          (outcome (expression context room rest)).bind fun (key, behind) =>
            (expect context .bracketClose behind).bind fun closed =>
              outcome (suffixes context room (.index token.position owner key) closed)
      | .mark .parenOpen =>
          (outcome (arguments context (expression context room) rest)).bind fun (given, behind) =>
            outcome (suffixes context room (.call token.position owner given) behind)
      | _ => .ok (owner, token :: rest) := by
  rcases token with ⟨lexeme, position⟩
  rw [suffixes]
  cases lexeme with
  | mark sign =>
      cases sign with
      | dot =>
          refine outcome_word_bind context rest fun taken => ?_
          exact outcome_widen_bind _ _
      | bracketOpen =>
          refine outcome_bind fun taken => ?_
          rcases taken with ⟨key, behind, shorter⟩
          refine outcome_expect_bind context .bracketClose behind fun closed => ?_
          exact outcome_widen_bind _ _
      | parenOpen =>
          refine outcome_bind fun taken => ?_
          exact outcome_widen_bind _ _
      | _ => rfl
  | _ => rfl

theorem outcome_path_zero (start : Position) (callee : Expr) (tokens : List Token) :
    outcome (path context 0 start callee tokens) =
      match after? .dot tokens with
      | some _ => .error (context.tooDeep tokens)
      | none => .ok (.new start callee [], tokens) := by
  simp only [path, after?_eq]
  cases mark? .dot tokens <;> rfl

theorem outcome_path (room : Nat) (start : Position) (callee : Expr) (tokens : List Token) :
    outcome (path context (room + 1) start callee tokens) =
      match after? .dot tokens with
      | none => .ok (.new start callee [], tokens)
      | some rest => (expectWord context rest).bind fun (label, behind) =>
          match after? .parenOpen behind with
          | some inside =>
              (outcome (arguments context (expression context room) inside)).map
                fun (given, rest) =>
                  (.new start (.member (context.position tokens) callee label) given, rest)
          | none =>
              outcome (path context room start (.member (context.position tokens) callee label)
                behind) := by
  simp only [path, after?_eq]
  cases mark? .dot tokens with
  | none => rfl
  | some dotted =>
      rcases dotted with ⟨_, rest, nearer⟩
      refine outcome_word_bind context rest fun taken => ?_
      rcases taken with ⟨label, behind, shorter⟩
      simp only
      cases mark? .parenOpen behind with
      | some opened => exact outcome_map _ _ _
      | none => exact outcome_widen_bind _ _

end DocShell.Reader

namespace DocShell.Expr

open Reader

/-! ## Whole texts -/

theorem ofTokens_eq (limit : Nat) (tokens : List Token) (finish : Position) :
    ofTokens limit tokens finish =
      match skipSemicolons tokens with
      | [] => .ok none
      | tokens => (outcome (expression ⟨limit, finish⟩ limit tokens)).bind fun (expr, behind) =>
          match skipSemicolons behind with
          | [] => .ok (some expr)
          | rest => .error (Context.unexpected ⟨limit, finish⟩ rest) := by
  simp only [ofTokens]
  generalize skipSemicolons tokens = kept
  cases kept with
  | nil => rfl
  | cons token rest =>
      dsimp only
      cases expression ⟨limit, finish⟩ limit (token :: rest) <;> rfl

theorem ofTokens_cons (limit : Nat) {token : Token} (noSemicolon : token.lexeme ≠ .mark .semicolon)
    (rest : List Token) (finish : Position) :
    ofTokens limit (token :: rest) finish =
      (outcome (expression ⟨limit, finish⟩ limit (token :: rest))).bind fun (expr, behind) =>
        match skipSemicolons behind with
        | [] => .ok (some expr)
        | rest => .error (Context.unexpected ⟨limit, finish⟩ rest) := by
  have kept : skipSemicolons (token :: rest) = token :: rest := by
    rw [skipSemicolons, List.dropWhile_cons_of_neg (by simpa using noSemicolon)]
  rw [ofTokens_eq, kept]

end DocShell.Expr
