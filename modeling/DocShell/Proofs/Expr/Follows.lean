import DocShell.Proofs.Expr.Invariant
import DocShell.Proofs.Expr.Moved

namespace DocShell

/-! # Reading follows

Readers look at lexemes only. Where tokens stand is handed on to expressions and to
failures, and the room is looked at for nothing but whether there is any. So readers follow
a change of both. -/

namespace Change

def before (change : Change) (finish : Position) : Reader.Context := ⟨change.limit, finish⟩

def after (change : Change) (finish : Position) : Reader.Context :=
  ⟨change.limit + change.more, change.move finish⟩

end Change

namespace Reader

open DocShell.Expr

/-! ## Parts -/

section

variable {change : Change} {finish : Position}

theorem position_after (tokens : List Token) :
    (change.after finish).position (change.tokens tokens) =
      change.move ((change.before finish).position tokens) := by
  cases tokens <;> rfl

theorem unexpected_after (tokens : List Token) :
    (change.after finish).unexpected (change.tokens tokens) =
      ((change.before finish).unexpected tokens).moved change.move := by
  cases tokens <;> rfl

theorem follows_unexpected {ι κ : Type} {transform : ι → κ} (tokens : List Token) :
    Follows change transform (.error ((change.before finish).unexpected tokens))
      (.error ((change.after finish).unexpected (change.tokens tokens))) :=
  .inl (congrArg Except.error (unexpected_after tokens))

/-- Where the first run lacks room, the second one lacks it too, or has more. -/
theorem follows_tooDeep {ι κ : Type} {transform : ι → κ} (tokens : List Token)
    (second : Nat → Except Failure κ)
    (lacks : second 0 = .error ((change.after finish).tooDeep (change.tokens tokens))) :
    Follows change transform (.error ((change.before finish).tooDeep tokens))
      (second (0 + change.more)) := by
  rcases Nat.eq_zero_or_pos change.more with noMore | more
  · rw [noMore, Nat.add_zero, lacks]
    refine .inl (congrArg Except.error ?_)
    rw [Context.tooDeep, Context.tooDeep, position_after, Change.after, noMore]
    rfl
  · exact .inr ⟨more, _, rfl⟩

theorem after?_tokens (expected : Mark) (tokens : List Token) :
    after? expected (change.tokens tokens) = (after? expected tokens).map change.tokens := by
  cases tokens with
  | nil => rfl
  | cons token rest =>
      rw [Change.tokens, List.map_cons, after?, after?]
      by_cases isMark : token.lexeme = .mark expected
      · rw [if_pos isMark]
        exact if_pos isMark
      · rw [if_neg isMark]
        exact if_neg isMark

theorem isSome_after?_tokens (expected : Mark) (tokens : List Token) :
    (after? expected (change.tokens tokens)).isSome = (after? expected tokens).isSome := by
  rw [after?_tokens, Option.isSome_map]

theorem follows_expect (expected : Mark) (tokens : List Token) :
    Follows change change.tokens (expect (change.before finish) expected tokens)
      (expect (change.after finish) expected (change.tokens tokens)) := by
  rw [expect, expect, after?_tokens]
  cases after? expected tokens with
  | none => exact follows_unexpected tokens
  | some rest => exact follows_ok rest

theorem follows_expectWord (tokens : List Token) :
    Follows change (change.found id) (expectWord (change.before finish) tokens)
      (expectWord (change.after finish) (change.tokens tokens)) := by
  cases tokens with
  | nil => exact follows_unexpected []
  | cons token rest =>
      rcases token with ⟨lexeme, position⟩
      cases lexeme with
      | word label => exact follows_ok (label, rest)
      | _ => exact follows_unexpected (_ :: rest)

end

/-! ## Lists -/

/-- Lists follow a change if their items do. -/
theorem follows_separated {ι κ : Type} {change : Change} {finish : Position} {closing : Mark}
    {transform : ι → κ} {each : List Token → Except Failure (ι × List Token)}
    {all : List Token → Except Failure (List ι × List Token)}
    {eachAfter : List Token → Except Failure (κ × List Token)}
    {allAfter : List Token → Except Failure (List κ × List Token)}
    (lists : ReadsList (change.before finish) closing each all)
    (listsAfter : ReadsList (change.after finish) closing eachAfter allAfter)
    (follows : ∀ tokens, Follows change (change.found transform) (each tokens)
      (eachAfter (change.tokens tokens))) (tokens : List Token) :
    Follows change (change.found (List.map transform)) (all tokens)
      (allAfter (change.tokens tokens)) := by
  induction length : tokens.length using Nat.strongRecOn generalizing tokens with
  | ind count induction =>
      rw [lists.equation, listsAfter.equation, after?_tokens]
      cases after? closing tokens with
      | some rest => exact follows_ok ([], rest)
      | none =>
          refine (follows tokens).bind_of_eq_ok fun pair found => ?_
          rcases pair with ⟨item, behind⟩
          have bound := lists.shorter tokens item behind found
          change Follows _ _ (behindItem _ closing all item behind)
            (behindItem _ closing allAfter (transform item) (change.tokens behind))
          rw [behindItem, behindItem, after?_tokens]
          cases comma : after? .comma behind with
          | some rest =>
              have fewer := length_lt_of_after? comma
              exact (induction rest.length (by omega) rest rfl).map fun _ => rfl
          | none => exact (follows_expect closing behind).map fun _ => rfl

section

variable {change : Change} {finish : Position} {read readAfter : Of Expr}
  (reads : ∀ tokens, Follows change (change.found change.expr) (outcome (read tokens))
    (outcome (readAfter (change.tokens tokens))))

include reads

theorem follows_arguments (tokens : List Token) :
    Follows change (change.found (List.map change.expr))
      (outcome (arguments (change.before finish) read tokens))
      (outcome (arguments (change.after finish) readAfter (change.tokens tokens))) :=
  follows_separated (readsList_arguments _ read) (readsList_arguments _ readAfter) reads tokens

theorem follows_itemOrHole (tokens : List Token) :
    Follows change (change.found (Option.map change.expr)) (itemOrHole read tokens)
      (itemOrHole readAfter (change.tokens tokens)) := by
  rw [itemOrHole, itemOrHole, after?_tokens]
  cases after? .comma tokens with
  | some rest => exact follows_ok (none, tokens)
  | none => exact (reads tokens).map fun _ => rfl

theorem follows_items (tokens : List Token) :
    Follows change (change.found (List.map (Option.map change.expr)))
      (outcome (items (change.before finish) read tokens))
      (outcome (items (change.after finish) readAfter (change.tokens tokens))) :=
  follows_separated (readsList_items _ read) (readsList_items _ readAfter)
    (follows_itemOrHole reads) tokens

theorem follows_keyed (key : String) (tokens : List Token) :
    Follows change (change.found (Prod.map id change.expr))
      (outcome (keyed (change.before finish) read key tokens))
      (outcome (keyed (change.after finish) readAfter key (change.tokens tokens))) := by
  rw [outcome_keyed, outcome_keyed]
  exact (follows_expect .colon tokens).bind fun rest => (reads rest).map fun _ => rfl

theorem follows_field (tokens : List Token) :
    Follows change (change.found (Prod.map id change.expr))
      (outcome (field (change.before finish) read tokens))
      (outcome (field (change.after finish) readAfter (change.tokens tokens))) := by
  cases tokens with
  | nil => exact follows_unexpected []
  | cons token rest =>
      rcases token with ⟨lexeme, position⟩
      rw [Change.tokens, List.map_cons, outcome_field, outcome_field]
      cases lexeme with
      | word label =>
          have colon : (after? .colon (rest.map (Token.moved change.move))).isSome =
              (after? .colon rest).isSome := isSome_after?_tokens .colon rest
          simp only [Token.moved, colon]
          split
          · exact follows_keyed reads label rest
          · exact follows_ok ((label, Expr.name position label), rest)
      | string text => exact follows_keyed reads text rest
      | number written => exact follows_keyed reads _ rest
      | _ => exact follows_unexpected (_ :: rest)

theorem follows_fields (tokens : List Token) :
    Follows change (change.found (List.map (Prod.map id change.expr)))
      (outcome (fields (change.before finish) read tokens))
      (outcome (fields (change.after finish) readAfter (change.tokens tokens))) :=
  follows_separated (readsList_fields _ read) (readsList_fields _ readAfter) (follows_field reads)
    tokens

end

/-! ## Expressions -/

theorem outcome_suffixes_stop (context : Context) (room : Nat) (owner : Expr) {tokens : List Token}
    (stops : ((after? .dot tokens).isSome || (after? .bracketOpen tokens).isSome ||
      (after? .parenOpen tokens).isSome) = false) :
    outcome (suffixes context room owner tokens) = .ok (owner, tokens) := by
  cases room with
  | zero => rw [outcome_suffixes_zero, stops, if_neg Bool.false_ne_true]
  | succ room =>
      cases tokens with
      | nil => exact outcome_suffixes_nil context _ owner
      | cons token rest =>
          rcases token with ⟨lexeme, position⟩
          rw [outcome_suffixes]
          cases lexeme with
          | mark sign =>
              cases sign with
              | dot => cases stops
              | bracketOpen => cases stops
              | parenOpen => cases stops
              | _ => rfl
          | _ => rfl

theorem outcome_path_stop (context : Context) (room : Nat) (start : Position) (callee : Expr)
    {tokens : List Token} (stops : after? .dot tokens = none) :
    outcome (path context room start callee tokens) = .ok (.new start callee [], tokens) := by
  cases room with
  | zero => rw [outcome_path_zero, stops]
  | succ room => rw [outcome_path, stops]

section

variable (change : Change) (finish : Position)

def FollowsAt (room : Nat) : Prop :=
  ∀ tokens, Follows change (change.found change.expr)
    (outcome (expression (change.before finish) room tokens))
    (outcome (expression (change.after finish) (room + change.more) (change.tokens tokens)))

variable {change finish}

theorem follows_suffixes {room : Nat} (reads : ∀ less < room, FollowsAt change finish less)
    (owner : Expr) (tokens : List Token) :
    Follows change (change.found change.expr)
      (outcome (suffixes (change.before finish) room owner tokens))
      (outcome (suffixes (change.after finish) (room + change.more) (change.expr owner)
        (change.tokens tokens))) := by
  -- Without room the first run fails if a suffix comes; with room both runs take the same suffix.
  induction room generalizing owner tokens with
  | zero =>
      cases marked : (after? .dot tokens).isSome || (after? .bracketOpen tokens).isSome ||
          (after? .parenOpen tokens).isSome with
      | true =>
          rw [outcome_suffixes_zero, if_pos marked]
          refine follows_tooDeep tokens (fun room => outcome (suffixes (change.after finish) room
            (change.expr owner) (change.tokens tokens))) ?_
          simp only [outcome_suffixes_zero, isSome_after?_tokens, marked, if_true]
      | false =>
          rw [outcome_suffixes_stop _ _ _ marked, outcome_suffixes_stop]
          · exact follows_ok (owner, tokens)
          · simp only [isSome_after?_tokens, marked]
  | succ room induction =>
      have inner := reads room (Nat.lt_succ_self room)
      have onward := induction fun less bound => reads less (Nat.lt_succ_of_lt bound)
      rw [Nat.add_right_comm]
      cases tokens with
      | nil =>
          rw [outcome_suffixes_nil, Change.tokens, List.map_nil, outcome_suffixes_nil]
          exact follows_ok (owner, [])
      | cons token rest =>
          rcases token with ⟨lexeme, position⟩
          rw [Change.tokens, List.map_cons, outcome_suffixes, outcome_suffixes]
          cases lexeme with
          | mark sign =>
              cases sign with
              | dot =>
                  refine (follows_expectWord rest).bind fun found => ?_
                  exact onward (.member position owner found.1) found.2
              | bracketOpen =>
                  refine (inner rest).bind fun found => ?_
                  refine (follows_expect .bracketClose found.2).bind fun closed => ?_
                  exact onward (.index position owner found.1) closed
              | parenOpen =>
                  refine (follows_arguments inner rest).bind fun found => ?_
                  have call := onward (.call position owner found.1) found.2
                  rwa [Change.expr_call] at call
              | _ => exact follows_ok (owner, ⟨.mark _, position⟩ :: rest)
          | _ => exact follows_ok (owner, _ :: rest)

theorem follows_path {room : Nat} (reads : ∀ less < room, FollowsAt change finish less)
    (start : Position) (callee : Expr) (tokens : List Token) :
    Follows change (change.found change.expr)
      (outcome (path (change.before finish) room start callee tokens))
      (outcome (path (change.after finish) (room + change.more) (change.move start)
        (change.expr callee) (change.tokens tokens))) := by
  induction room generalizing callee tokens with
  | zero =>
      have alike : _ = (after? .dot tokens).map change.tokens := after?_tokens .dot tokens
      cases dotted : after? .dot tokens with
      | some rest =>
          rw [outcome_path_zero, dotted]
          refine follows_tooDeep tokens (fun room => outcome (path (change.after finish) room
            (change.move start) (change.expr callee) (change.tokens tokens))) ?_
          rw [outcome_path_zero, alike, dotted]
          rfl
      | none =>
          rw [dotted] at alike
          rw [outcome_path_stop _ _ _ _ dotted, outcome_path_stop _ _ _ _ alike]
          exact follows_ok (Expr.new start callee [], tokens)
  | succ room induction =>
      have inner := reads room (Nat.lt_succ_self room)
      have onward := induction fun less bound => reads less (Nat.lt_succ_of_lt bound)
      have alike : _ = (after? .dot tokens).map change.tokens := after?_tokens .dot tokens
      rw [Nat.add_right_comm, outcome_path, outcome_path, alike]
      cases after? .dot tokens with
      | none => exact follows_ok (Expr.new start callee [], tokens)
      | some rest =>
          refine (follows_expectWord rest).bind fun found => ?_
          rcases found with ⟨label, behind⟩
          have longer : change.expr
              (.member ((change.before finish).position tokens) callee label) =
              .member ((change.after finish).position (change.tokens tokens)) (change.expr callee)
                label := by
            rw [position_after]
            rfl
          simp only [Change.found, after?_tokens]
          cases after? .parenOpen behind with
          | some inside =>
              refine (follows_arguments inner inside).map fun found => ?_
              simp only [Change.found, Change.expr_new, longer]
              rfl
          | none => exact longer ▸ onward _ _

theorem follows_construction {room : Nat}
    (reads : ∀ less < room + 1, FollowsAt change finish less) (position : Position)
    (tokens : List Token) :
    Follows change (change.found change.expr)
      (outcome (construction (change.before finish) room position tokens))
      (outcome (construction (change.after finish) (room + change.more) (change.move position)
        (change.tokens tokens))) := by
  rw [outcome_construction, outcome_construction]
  refine (follows_expectWord tokens).bind fun found => ?_
  rcases found with ⟨label, behind⟩
  have callee : change.expr (.name ((change.before finish).position tokens) label) =
      .name ((change.after finish).position (change.tokens tokens)) label := by
    rw [position_after]
    rfl
  simp only [Change.found, after?_tokens]
  cases after? .parenOpen behind with
  | some inside =>
      refine (follows_arguments (reads room (Nat.lt_succ_self room)) inside).map fun found => ?_
      simp only [Change.found, Change.expr_new, callee]
      rfl
  | none =>
      have path := follows_path (fun less bound => reads less (Nat.lt_succ_of_lt bound)) position
        (.name ((change.before finish).position tokens) label) behind
      rwa [callee] at path

/-- What is read one level further in follows a change if it does whenever expressions do. -/
theorem follows_nested {ι κ : Type} {transform : ι → κ} {room : Nat}
    (reads : ∀ less < room + 1, FollowsAt change finish less) (tokens : List Token)
    (first : Of Expr → Except Failure ι) (second : Of Expr → Except Failure κ)
    (inside : ∀ less, FollowsAt change finish less → Follows change transform
      (first (expression (change.before finish) less))
      (second (expression (change.after finish) (less + change.more)))) :
    Follows change transform
      (match nested (change.before finish) room with
        | some read => first read
        | none => .error ((change.before finish).tooDeep tokens))
      (match nested (change.after finish) (room + change.more) with
        | some read => second read
        | none => .error ((change.after finish).tooDeep (change.tokens tokens))) := by
  cases room with
  | zero =>
      exact follows_tooDeep tokens (fun room => match nested (change.after finish) room with
        | some read => second read
        | none => .error ((change.after finish).tooDeep (change.tokens tokens))) rfl
  | succ room =>
      rw [Nat.add_right_comm]
      exact inside room (reads room (Nat.lt_succ_of_lt (Nat.lt_succ_self room)))

theorem follows_primary {room : Nat} (reads : ∀ less < room + 1, FollowsAt change finish less)
    (token : Token) (rest : List Token) :
    Follows change (change.found change.expr)
      (outcome (primary (change.before finish) (expression (change.before finish) room)
        (nested (change.before finish) room) (construction (change.before finish) room)
        (token :: rest)))
      (outcome (primary (change.after finish)
        (expression (change.after finish) (room + change.more))
        (nested (change.after finish) (room + change.more))
        (construction (change.after finish) (room + change.more))
        (change.tokens (token :: rest)))) := by
  rcases token with ⟨lexeme, position⟩
  rw [Change.tokens, List.map_cons, outcome_primary, outcome_primary]
  have inner := reads room (Nat.lt_succ_self room)
  cases lexeme with
  | number written => exact follows_ok (Expr.literal position (.number written), rest)
  | string text => exact follows_ok (Expr.literal position (.string text), rest)
  | regex source options =>
      exact follows_ok (Expr.literal position (.regex source options), rest)
  | word label =>
      simp only [Token.moved]
      split
      · rename_i literal _
        exact follows_ok (Expr.literal position literal, rest)
      · split
        · exact follows_construction reads position rest
        · exact follows_ok (Expr.name position label, rest)
  | mark sign =>
      cases sign with
      | parenOpen =>
          refine (inner rest).bind fun found => ?_
          exact (follows_expect .parenClose found.2).map fun _ => rfl
      | bracketOpen =>
          refine follows_nested reads rest _ _ fun less inside => ?_
          refine (follows_items inside rest).map fun found => ?_
          rw [Change.found, Change.found, Change.expr_array]
          rfl
      | braceOpen =>
          refine follows_nested reads rest _ _ fun less inside => ?_
          refine (follows_fields inside rest).map fun found => ?_
          rw [Change.found, Change.found, Change.expr_object]
          rfl
      | _ => exact follows_unexpected (⟨.mark _, position⟩ :: rest)

theorem followsAt (room : Nat) : FollowsAt change finish room := by
  induction room using Nat.strongRecOn with
  | ind room reads =>
      intro tokens
      cases room with
      | zero =>
          rw [outcome_expression_zero]
          exact follows_tooDeep tokens (fun room => outcome (expression (change.after finish) room
            (change.tokens tokens))) (outcome_expression_zero _ _)
      | succ room =>
          rw [Nat.add_right_comm]
          cases tokens with
          | nil =>
              rw [outcome_expression_nil, Change.tokens, List.map_nil, outcome_expression_nil]
              exact follows_unexpected []
          | cons token rest =>
              rcases token with ⟨lexeme, position⟩
              have primary := follows_primary reads ⟨lexeme, position⟩ rest
              rw [Change.tokens, List.map_cons] at primary ⊢
              rw [outcome_expression, outcome_expression]
              simp only [Token.moved] at primary ⊢
              cases sign? lexeme with
              | some sign => exact (reads room (Nat.lt_succ_self room) rest).map fun _ => rfl
              | none =>
                  refine primary.bind fun found => ?_
                  exact follows_suffixes (fun less bound => reads less (Nat.lt_succ_of_lt bound))
                    found.1 found.2

end

end Reader

/-! ## Whole texts -/

namespace Expr

open Reader

theorem skipSemicolons_tokens (change : Change) (tokens : List Token) :
    skipSemicolons (change.tokens tokens) = change.tokens (skipSemicolons tokens) := by
  rw [skipSemicolons, Change.tokens, List.dropWhile_map]
  rfl

/-- Reading a whole text follows a change. -/
theorem follows_ofTokens (change : Change) (tokens : List Token) (finish : Position) :
    Follows change (Option.map change.expr) (ofTokens change.limit tokens finish)
      (ofTokens (change.limit + change.more) (change.tokens tokens) (change.move finish)) := by
  rw [ofTokens_eq, ofTokens_eq, skipSemicolons_tokens]
  cases skipSemicolons tokens with
  | nil => exact follows_ok none
  | cons token rest =>
      refine (followsAt change.limit (token :: rest)).bind fun found => ?_
      rcases found with ⟨expr, behind⟩
      simp only [Change.found, skipSemicolons_tokens]
      cases skipSemicolons behind with
      | nil => exact follows_ok (some expr)
      | cons token rest => exact follows_unexpected (token :: rest)

end Expr

end DocShell
