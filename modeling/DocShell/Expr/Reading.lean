import DocShell.Expr.Basic
import DocShell.Failure.Basic
import DocShell.Number.Layout
import DocShell.Text.Taken
import DocShell.Token.Scan

namespace DocShell

/-! # Reading expressions

An expression is a primary with suffixes, or a sign before an expression. How
deeply it nests is limited: an expression, an array, an object and a suffix each
take one level of the room that is left, and the inner expressions of a suffix
have the room that its predecessors on the same primary leave over. -/

namespace Reader

structure Context where
  /-- The levels allowed in all, which messages name. -/
  limit : Nat
  /-- The position of the end of the text. -/
  finish : Position

namespace Context

def position (context : Context) : List Token → Position
  | token :: _ => token.position
  | [] => context.finish

def unexpected (context : Context) (tokens : List Token) : Failure :=
  .unreadable (.unexpected (tokens.head?.map (·.lexeme))) (context.position tokens)

def tooDeep (context : Context) (tokens : List Token) : Failure :=
  .unreadable (.tooDeep context.limit) (context.position tokens)

end Context

abbrev Result (ι : Type) (bound : Nat) := Except Failure (Taken ι Token bound)

/-- A reader that takes at least one token. -/
abbrev Of (ι : Type) := (tokens : List Token) → Result ι tokens.length

/-! ## Parts without recursion -/

def mark? (expected : Mark) : (tokens : List Token) → Option (Taken Unit Token tokens.length)
  | [] => none
  | token :: rest =>
      if token.lexeme = .mark expected then some ⟨(), rest, Nat.lt_succ_self _⟩ else none

def mark (context : Context) (expected : Mark) : Of Unit := fun tokens =>
  match mark? expected tokens with
  | some taken => .ok taken
  | none => .error (context.unexpected tokens)

def word (context : Context) : Of String
  | [] => .error (context.unexpected [])
  | token :: rest =>
      match token.lexeme with
      | .word label => .ok ⟨label, rest, Nat.lt_succ_self _⟩
      | _ => .error (context.unexpected (token :: rest))

/-! ## Lists of expressions -/

def arguments (context : Context) (read : Of Expr) (tokens : List Token) :
    Result (List Expr) tokens.length :=
  match mark? .parenClose tokens with
  | some closed => .ok (closed.map fun _ => [])
  | none => do
      let ⟨argument, behind, shorter⟩ ← read tokens
      match mark? .comma behind with
      | some ⟨_, rest, nearer⟩ =>
          let more ← arguments context read rest
          .ok ((more.map (argument :: ·)).widen (by omega))
      | none =>
          let closed ← mark context .parenClose behind
          .ok ((closed.map fun _ => [argument]).widen (Nat.le_of_lt shorter))
termination_by tokens.length

/-- Items up to the closing bracket. A comma without an item before it is a hole. -/
def items (context : Context) (read : Of Expr) (tokens : List Token) :
    Result (List (Option Expr)) tokens.length :=
  match mark? .bracketClose tokens, mark? .comma tokens with
  | some closed, _ => .ok (closed.map fun _ => [])
  | none, some ⟨_, rest, shorter⟩ => do
      let more ← items context read rest
      .ok ((more.map (none :: ·)).widen (Nat.le_of_lt shorter))
  | none, none => do
      let ⟨item, behind, shorter⟩ ← read tokens
      match mark? .comma behind with
      | some ⟨_, rest, nearer⟩ =>
          let more ← items context read rest
          .ok ((more.map (some item :: ·)).widen (by omega))
      | none =>
          let closed ← mark context .bracketClose behind
          .ok ((closed.map fun _ => [some item]).widen (Nat.le_of_lt shorter))
termination_by tokens.length

def keyed (context : Context) (read : Of Expr) (key : String) : Of (String × Expr) :=
  fun tokens => do
    let ⟨_, rest, shorter⟩ ← mark context .colon tokens
    let value ← read rest
    .ok ((value.map fun value => (key, value)).widen (Nat.le_of_lt shorter))

/-- One field: a word, a string or a number with its value, or a word alone, which
stands for the binding of that name. -/
def field (context : Context) (read : Of Expr) : Of (String × Expr)
  | [] => .error (context.unexpected [])
  | token :: rest =>
      let withValue (key : String) : Result (String × Expr) (rest.length + 1) :=
        (keyed context read key rest).map (·.widen (Nat.le_succ _))
      match token.lexeme with
      | .word label =>
          if (mark? .colon rest).isSome then withValue label
          else .ok ⟨(label, .name token.position label), rest, Nat.lt_succ_self _⟩
      | .string text => withValue text
      | .number written => withValue (String.ofList written.value.shellText)
      | _ => .error (context.unexpected (token :: rest))

def fields (context : Context) (read : Of Expr) (tokens : List Token) :
    Result (List (String × Expr)) tokens.length :=
  match mark? .braceClose tokens with
  | some closed => .ok (closed.map fun _ => [])
  | none => do
      let ⟨entry, behind, shorter⟩ ← field context read tokens
      match mark? .comma behind with
      | some ⟨_, rest, nearer⟩ =>
          let more ← fields context read rest
          .ok ((more.map (entry :: ·)).widen (by omega))
      | none =>
          let closed ← mark context .braceClose behind
          .ok ((closed.map fun _ => [entry]).widen (Nat.le_of_lt shorter))
termination_by tokens.length

/-! ## Expressions -/

def sign? : Lexeme → Option Sign
  | .mark .plus => some .plus
  | .mark .minus => some .minus
  | _ => none

def keyword? (label : String) : Option Literal :=
  if label = "null" then some .null
  else if label = "true" then some (.bool true)
  else if label = "false" then some (.bool false)
  else none

/-- An expression without suffixes. The expression in parentheses is read by
`group`, those in an array or an object by `nested`, if there is room for them,
and what follows the word `new` by `construct`. -/
def primary (context : Context) (group : Of Expr) (nested : Option (Of Expr))
    (construct : Position → Of Expr) : Of Expr
  | [] => .error (context.unexpected [])
  | token :: rest =>
      let alone (expr : Expr) : Result Expr (rest.length + 1) :=
        .ok ⟨expr, rest, Nat.lt_succ_self _⟩
      match token.lexeme with
      | .number written => alone (.literal token.position (.number written))
      | .string text => alone (.literal token.position (.string text))
      | .regex source options => alone (.literal token.position (.regex source options))
      | .word label =>
          match keyword? label with
          | some literal => alone (.literal token.position literal)
          | none =>
              if label = "new" then (construct token.position rest).map (·.widen (Nat.le_succ _))
              else alone (.name token.position label)
      | .mark .parenOpen => do
          let ⟨inner, behind, shorter⟩ ← group rest
          let closed ← mark context .parenClose behind
          .ok ((closed.map fun _ => inner).widen (Nat.le_succ_of_le (Nat.le_of_lt shorter)))
      | .mark .bracketOpen =>
          match nested with
          | some read => (items context read rest).map fun taken =>
              (taken.map (.array token.position)).widen (Nat.le_succ _)
          | none => .error (context.tooDeep rest)
      | .mark .braceOpen =>
          match nested with
          | some read => (fields context read rest).map fun taken =>
              (taken.map (.object token.position)).widen (Nat.le_succ _)
          | none => .error (context.tooDeep rest)
      | _ => .error (context.unexpected (token :: rest))

mutual

def expression (context : Context) : (room : Nat) → Of Expr
  | 0 => fun tokens => .error (context.tooDeep tokens)
  | room + 1 => fun tokens =>
      match tokens with
      | [] => .error (context.unexpected [])
      | token :: rest =>
          match sign? token.lexeme with
          | some sign =>
              (expression context room rest).map fun operand =>
                (operand.map (.signed token.position sign)).widen (Nat.le_succ _)
          | none => do
              let ⟨start, behind, shorter⟩ ←
                primary context (expression context room)
                  (match room with
                    | 0 => none
                    | room + 1 => some (expression context room))
                  (fun position tokens => do
                    let ⟨label, behind, shorter⟩ ← word context tokens
                    let callee := Expr.name (context.position tokens) label
                    match mark? .parenOpen behind with
                    | some ⟨_, inside, nearer⟩ =>
                        let given ← arguments context (expression context room) inside
                        .ok ((given.map (.new position callee)).widen (by omega))
                    | none =>
                        let whole ← path context room position callee behind
                        .ok (whole.widen shorter))
                  (token :: rest)
              let whole ← suffixes context room start behind
              .ok (whole.widen shorter)

def suffixes (context : Context) :
    (room : Nat) → Expr → (tokens : List Token) → Result Expr (tokens.length + 1)
  | 0 => fun owner tokens =>
      if (mark? .dot tokens).isSome || (mark? .bracketOpen tokens).isSome ||
          (mark? .parenOpen tokens).isSome then
        .error (context.tooDeep tokens)
      else .ok ⟨owner, tokens, Nat.lt_succ_self _⟩
  | room + 1 => fun owner tokens =>
      match tokens with
      | [] => .ok ⟨owner, [], Nat.lt_succ_self _⟩
      | token :: rest =>
          match token.lexeme with
          | .mark .dot => do
              let ⟨label, behind, shorter⟩ ← word context rest
              let whole ← suffixes context room (.member token.position owner label) behind
              .ok (whole.widen (by simp only [List.length_cons]; omega))
          | .mark .bracketOpen => do
              let ⟨key, behind, shorter⟩ ← expression context room rest
              let ⟨_, closed, nearer⟩ ← mark context .bracketClose behind
              let whole ← suffixes context room (.index token.position owner key) closed
              .ok (whole.widen (by simp only [List.length_cons]; omega))
          | .mark .parenOpen => do
              let ⟨given, behind, shorter⟩ ← arguments context (expression context room) rest
              let whole ← suffixes context room (.call token.position owner given) behind
              .ok (whole.widen (by simp only [List.length_cons]; omega))
          | _ => .ok ⟨owner, token :: rest, Nat.lt_succ_self _⟩

/-- The rest of the path behind the word `new`, with the arguments if there are any. -/
def path (context : Context) :
    (room : Nat) → Position → Expr → (tokens : List Token) → Result Expr (tokens.length + 1)
  | 0 => fun start callee tokens =>
      if (mark? .dot tokens).isSome then .error (context.tooDeep tokens)
      else .ok ⟨.new start callee [], tokens, Nat.lt_succ_self _⟩
  | room + 1 => fun start callee tokens =>
      match mark? .dot tokens with
      | none => .ok ⟨.new start callee [], tokens, Nat.lt_succ_self _⟩
      | some ⟨_, rest, dotted⟩ => do
          let ⟨label, behind, shorter⟩ ← word context rest
          let callee := Expr.member (context.position tokens) callee label
          match mark? .parenOpen behind with
          | some ⟨_, inside, nearer⟩ =>
              let given ← arguments context (expression context room) inside
              .ok ((given.map (.new start callee)).widen (by omega))
          | none =>
              let whole ← path context room start callee behind
              .ok (whole.widen (by omega))

end

end Reader

/-! ## Whole texts -/

namespace Expr

def skipSemicolons (tokens : List Token) : List Token :=
  tokens.dropWhile fun token => token.lexeme = .mark .semicolon

/-- The expression that tokens consist of, if there is one between the semicolons
before and behind it. -/
def ofTokens (limit : Nat) (tokens : List Token) (finish : Position) :
    Except Failure (Option Expr) :=
  let context : Reader.Context := ⟨limit, finish⟩
  match skipSemicolons tokens with
  | [] => .ok none
  | tokens => do
      let taken ← Reader.expression context limit tokens
      match skipSemicolons taken.rest with
      | [] => .ok (some taken.item)
      | rest => .error (context.unexpected rest)

def parse (limit : Nat) (text : String) : Except Failure (Option Expr) :=
  match Token.scan text with
  | .ok (tokens, finish) => ofTokens limit tokens finish
  | .error (fault, position) => .error (.unreadable (.scan fault) position)

end Expr

end DocShell
