import DocShell.Failure.Message
import DocShell.Proofs.Expr.Invariant

namespace DocShell.Reader

/-! # How readers fail

Readers refuse a token, or the end of the text, that cannot stand at its place, and
whatever is nested too deeply. They fail in no other way: what names stand for, and what
is done with them, is no concern of theirs. -/

structure Refusals (context : Context) (allowed : Failure → Prop) : Prop where
  unexpected : ∀ tokens, allowed (context.unexpected tokens)
  tooDeep : ∀ tokens, allowed (context.tooDeep tokens)

section

variable {context : Context} {allowed : Failure → Prop} (refusals : Refusals context allowed)

include refusals

theorem failsOnly_expect (expected : Mark) (tokens : List Token) :
    FailsOnly allowed (expect context expected tokens) := by
  rw [expect]
  split
  · exact failsOnly_ok _
  · exact failsOnly_error (refusals.unexpected tokens)

theorem failsOnly_expectWord (tokens : List Token) :
    FailsOnly allowed (expectWord context tokens) := by
  cases tokens with
  | nil => exact failsOnly_error (refusals.unexpected [])
  | cons token rest =>
      rw [expectWord]
      split
      · exact failsOnly_ok _
      · exact failsOnly_error (refusals.unexpected _)

/-! ## Lists -/

/-- A list with commas and a closing mark fails as its items do, or at one of the marks. -/
theorem failsOnly_separated {ι : Type} {closing : Mark}
    {each : List Token → Except Failure (ι × List Token)}
    {all : List Token → Except Failure (List ι × List Token)}
    (lists : ReadsList context closing each all)
    (fails : ∀ tokens, FailsOnly allowed (each tokens)) (tokens : List Token) :
    FailsOnly allowed (all tokens) := by
  induction length : tokens.length using Nat.strongRecOn generalizing tokens with
  | ind count induction =>
      rw [lists.equation]
      split
      · exact failsOnly_ok _
      · cases found : each tokens with
        | error failure => exact failsOnly_error (fails tokens failure found)
        | ok pair =>
            rcases pair with ⟨item, behind⟩
            have bound := lists.shorter tokens item behind found
            change FailsOnly _ (behindItem context closing all item behind)
            unfold behindItem
            split
            · rename_i rest comma
              have fewer := length_lt_of_after? comma
              exact (induction rest.length (by omega) rest rfl).map
            · exact (failsOnly_expect refusals closing behind).map

section

variable {read : Of Expr} (reads : ∀ tokens, FailsOnly allowed (outcome (read tokens)))

include reads

theorem failsOnly_arguments (tokens : List Token) :
    FailsOnly allowed (outcome (arguments context read tokens)) :=
  failsOnly_separated refusals (readsList_arguments context read) reads tokens

theorem failsOnly_items (tokens : List Token) :
    FailsOnly allowed (outcome (items context read tokens)) := by
  refine failsOnly_separated refusals (readsList_items context read) (fun tokens => ?_) tokens
  rw [itemOrHole]
  split
  · exact failsOnly_ok _
  · exact (reads tokens).map

theorem failsOnly_keyed (key : String) (tokens : List Token) :
    FailsOnly allowed (outcome (keyed context read key tokens)) := by
  rw [outcome_keyed]
  exact (failsOnly_expect refusals .colon tokens).bind fun rest => (reads rest).map

theorem failsOnly_field (tokens : List Token) :
    FailsOnly allowed (outcome (field context read tokens)) := by
  cases tokens with
  | nil => exact failsOnly_error (refusals.unexpected [])
  | cons token rest =>
      rw [outcome_field]
      split
      · split
        · exact failsOnly_keyed refusals reads _ rest
        · exact failsOnly_ok _
      · exact failsOnly_keyed refusals reads _ rest
      · exact failsOnly_keyed refusals reads _ rest
      · exact failsOnly_error (refusals.unexpected _)

theorem failsOnly_fields (tokens : List Token) :
    FailsOnly allowed (outcome (fields context read tokens)) :=
  failsOnly_separated refusals (readsList_fields context read) (failsOnly_field refusals reads)
    tokens

end

/-! ## Expressions -/

variable (context) (allowed) in
def RefusesOnly (room : Nat) : Prop :=
  ∀ tokens, FailsOnly allowed (outcome (expression context room tokens))

theorem failsOnly_suffixes {room : Nat} (reads : ∀ less < room, RefusesOnly context allowed less)
    (owner : Expr) (tokens : List Token) :
    FailsOnly allowed (outcome (suffixes context room owner tokens)) := by
  induction room generalizing owner tokens with
  | zero =>
      rw [outcome_suffixes_zero]
      split
      · exact failsOnly_error (refusals.tooDeep tokens)
      · exact failsOnly_ok _
  | succ room induction =>
      have inner := reads room (Nat.lt_succ_self room)
      have onward := induction fun less bound => reads less (Nat.lt_succ_of_lt bound)
      cases tokens with
      | nil =>
          rw [outcome_suffixes_nil]
          exact failsOnly_ok _
      | cons token rest =>
          rw [outcome_suffixes]
          split
          · exact (failsOnly_expectWord refusals rest).bind fun found => onward _ _
          · refine (inner rest).bind fun found => ?_
            exact (failsOnly_expect refusals .bracketClose _).bind fun closed => onward _ _
          · exact (failsOnly_arguments refusals inner rest).bind fun found => onward _ _
          · exact failsOnly_ok _

theorem failsOnly_path {room : Nat} (reads : ∀ less < room, RefusesOnly context allowed less)
    (start : Position) (callee : Expr) (tokens : List Token) :
    FailsOnly allowed (outcome (path context room start callee tokens)) := by
  induction room generalizing callee tokens with
  | zero =>
      rw [outcome_path_zero]
      split
      · exact failsOnly_error (refusals.tooDeep tokens)
      · exact failsOnly_ok _
  | succ room induction =>
      have inner := reads room (Nat.lt_succ_self room)
      have onward := induction fun less bound => reads less (Nat.lt_succ_of_lt bound)
      rw [outcome_path]
      split
      · exact failsOnly_ok _
      · refine (failsOnly_expectWord refusals _).bind fun found => ?_
        dsimp only
        split
        · exact (failsOnly_arguments refusals inner _).map
        · exact onward _ _

theorem failsOnly_construction {room : Nat}
    (reads : ∀ less < room + 1, RefusesOnly context allowed less) (position : Position)
    (tokens : List Token) : FailsOnly allowed (outcome (construction context room position tokens)) := by
  rw [outcome_construction]
  refine (failsOnly_expectWord refusals tokens).bind fun found => ?_
  dsimp only
  split
  · exact (failsOnly_arguments refusals (reads room (Nat.lt_succ_self room)) _).map
  · exact failsOnly_path refusals (fun less bound => reads less (Nat.lt_succ_of_lt bound)) _ _ _

theorem failsOnly_primary {room : Nat} (reads : ∀ less < room + 1, RefusesOnly context allowed less)
    (token : Token) (rest : List Token) :
    FailsOnly allowed (outcome (primary context (expression context room) (nested context room)
      (construction context room) (token :: rest))) := by
  rw [outcome_primary]
  split
  · exact failsOnly_ok _
  · exact failsOnly_ok _
  · exact failsOnly_ok _
  · split
    · exact failsOnly_ok _
    split
    · exact failsOnly_construction refusals reads _ rest
    · exact failsOnly_ok _
  · refine (reads room (Nat.lt_succ_self room) rest).bind fun found => ?_
    exact (failsOnly_expect refusals .parenClose _).map
  · cases room with
    | zero => exact failsOnly_error (refusals.tooDeep rest)
    | succ room =>
        have inner := reads room (Nat.lt_succ_of_lt (Nat.lt_succ_self room))
        exact (failsOnly_items refusals inner rest).map
  · cases room with
    | zero => exact failsOnly_error (refusals.tooDeep rest)
    | succ room =>
        have inner := reads room (Nat.lt_succ_of_lt (Nat.lt_succ_self room))
        exact (failsOnly_fields refusals inner rest).map
  · exact failsOnly_error (refusals.unexpected _)

theorem refusesOnly (room : Nat) : RefusesOnly context allowed room := by
  induction room using Nat.strongRecOn with
  | ind room reads =>
      intro tokens
      cases room with
      | zero =>
          rw [outcome_expression_zero]
          exact failsOnly_error (refusals.tooDeep tokens)
      | succ room =>
          cases tokens with
          | nil =>
              rw [outcome_expression_nil]
              exact failsOnly_error (refusals.unexpected [])
          | cons token rest =>
              rw [outcome_expression]
              split
              · exact (reads room (Nat.lt_succ_self room) rest).map
              · refine (failsOnly_primary refusals reads token rest).bind fun found => ?_
                exact failsOnly_suffixes refusals
                  (fun less bound => reads less (Nat.lt_succ_of_lt bound)) _ _

end

end DocShell.Reader

namespace DocShell.Expr

/-! ## Whole texts -/

theorem failsOnly_ofTokens {allowed : Failure → Prop} (limit : Nat) (tokens : List Token)
    (finish : Position) (refusals : Reader.Refusals ⟨limit, finish⟩ allowed) :
    FailsOnly allowed (ofTokens limit tokens finish) := by
  rw [ofTokens_eq]
  split
  · exact failsOnly_ok _
  · refine (Reader.refusesOnly refusals limit _).bind fun found => ?_
    dsimp only
    split
    · exact failsOnly_ok _
    · exact failsOnly_error (refusals.unexpected _)

/-- A text that cannot be read is a syntax error. -/
theorem failsOnly_parse (limit : Nat) (text : String) :
    FailsOnly (·.family = .syntaxError) (parse limit text) := by
  rw [parse]
  split
  · exact failsOnly_ofTokens _ _ _ ⟨fun _ => rfl, fun _ => rfl⟩
  · exact failsOnly_error rfl

end DocShell.Expr
