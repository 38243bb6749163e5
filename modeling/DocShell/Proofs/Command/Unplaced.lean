import DocShell.Proofs.Command.Follows
import DocShell.Proofs.Token.Gap

namespace DocShell

/-! # Results apart from places

What a text amounts to is settled by its lexemes. Where they stand decides no more than the
place that a failure names. -/

/-- A result with the place of a failure left out. Two results are the same apart from places
if both are the same value or both are the same failure at places of their own. -/
def unplaced {α : Type} (result : Except Failure α) : Except Failure α :=
  carried (fun _ => .start) id result

def Change.unplaced (limit : Nat) : Change := ⟨fun _ => .start, limit, 0⟩

def Token.unplaced (lexemes : List Lexeme) : List Token := lexemes.map (⟨·, .start⟩)

theorem Change.tokens_unplaced (limit : Nat) (tokens : List Token) :
    (unplaced limit).tokens tokens = Token.unplaced (tokens.map (·.lexeme)) := by
  rw [Change.tokens, Token.unplaced, List.map_map]
  rfl

variable {limit : Nat} {text : String} {tokens : List Token} {finish : Position}

theorem Value.unplaced_ofShell (scanned : Token.scan text = .ok (tokens, finish)) :
    unplaced (ofShell limit text) =
      Expr.ofTokens limit (Token.unplaced (tokens.map (·.lexeme))) .start >>= ofParsed := by
  have follows := (Expr.follows_ofTokens (.unplaced limit) tokens finish).bind follows_ofParsed
  rw [Change.tokens_unplaced] at follows
  rw [ofShell_eq, Expr.parse, scanned]
  exact (follows.eq_carried rfl).symm

theorem Command.unplaced_ofShell (findLimit : Int)
    (scanned : Token.scan text = .ok (tokens, finish)) :
    unplaced (ofShell limit findLimit text) =
      Expr.ofTokens limit (Token.unplaced (tokens.map (·.lexeme))) .start >>=
        ofParsed findLimit := by
  have follows := (Expr.follows_ofTokens (.unplaced limit) tokens finish).bind
    (follows_ofParsed findLimit)
  rw [Change.tokens_unplaced] at follows
  rw [ofShell_eq, Expr.parse, scanned]
  exact (follows.eq_carried rfl).symm

/-- Texts of the same lexemes, or spoiled by the same fault, amount to the same. -/
theorem unplaced_ofShell_of_kinds {first second : String}
    (same : Token.kinds (Token.scan first) = Token.kinds (Token.scan second)) (limit : Nat) :
    unplaced (Value.ofShell limit first) = unplaced (Value.ofShell limit second) ∧
      ∀ findLimit : Int, unplaced (Command.ofShell limit findLimit first) =
        unplaced (Command.ofShell limit findLimit second) := by
  cases left : Token.scan first with
  | error located =>
      cases right : Token.scan second with
      | ok found => rw [left, right] at same; cases same
      | error other =>
          rw [left, right] at same
          rcases located with ⟨fault, place⟩
          rcases other with ⟨other, elsewhere⟩
          cases same
          simp only [Value.ofShell_eq, Command.ofShell_eq, Expr.parse, left, right]
          exact ⟨rfl, fun _ => rfl⟩
  | ok found =>
      cases right : Token.scan second with
      | error other => rw [left, right] at same; cases same
      | ok others =>
          rw [left, right] at same
          have lexemes := Except.ok.inj same
          refine ⟨?_, fun findLimit => ?_⟩
          · rw [Value.unplaced_ofShell left, Value.unplaced_ofShell right, lexemes]
          · rw [Command.unplaced_ofShell findLimit left, Command.unplaced_ofShell findLimit right,
              lexemes]

/-! ## Layout -/

/-- Blanks and comments right in front of a token or right behind it carry no meaning: the
lexemes stay, and so does the value or the command, or the failure apart from its place. -/
theorem unplaced_ofShell_of_gap (scanned : Token.scan text = .ok (tokens, finish)) :
    (∀ token ∈ tokens, ∃ front inside back,
      Token.Occurs text.toList front inside back token.lexeme ∧
        token.position = .counted front) ∧
      ∀ front inside back lexeme gap, Token.Occurs text.toList front inside back lexeme →
        Token.Gap gap → ∀ padded ∈ [String.ofList (front ++ gap ++ inside ++ back),
          String.ofList (front ++ inside ++ gap ++ back)],
          Token.kinds (Token.scan padded) = .ok (tokens.map (·.lexeme)) ∧
            ∀ limit, unplaced (Value.ofShell limit padded) = unplaced (Value.ofShell limit text) ∧
              ∀ findLimit : Int, unplaced (Command.ofShell limit findLimit padded) =
                unplaced (Command.ofShell limit findLimit text) := by
  refine ⟨fun token => Token.occurs_of_scan scanned, ?_⟩
  intro front inside back lexeme gap occurs isGap padded member
  have kinds := Token.kinds_scan_of_gap occurs isGap
  rw [String.ofList_toList] at kinds
  have same : Token.kinds (Token.scan padded) = Token.kinds (Token.scan text) := by
    simp only [List.mem_cons, List.not_mem_nil, or_false] at member
    rcases member with rfl | rfl
    · exact kinds.1
    · exact kinds.2
  have lexemes : Token.kinds (Token.scan text) = .ok (tokens.map (·.lexeme)) := by
    rw [scanned]
    rfl
  exact ⟨same.trans lexemes, unplaced_ofShell_of_kinds same⟩

theorem Token.occurs_bracketClose :
    Occurs "[]".toList ['['] [']'] [] (.mark .bracketClose) := by
  have opening : Mark.bracketOpen ≠ .dot := by decide
  have closing : Mark.bracketClose ≠ .dot := by decide
  exact ⟨.step .start (step_mark opening [']']), ']', [], rfl, step_mark closing []⟩

theorem unplaced_ofShell_commentedArray :
    Token.Occurs "[]".toList ['['] [']'] [] (.mark .bracketClose) ∧
      Token.Gap ['/', '*', '/', '*', '/', '\n'] ∧
      unplaced (Value.ofShell 8 (String.ofList ['[', '/', '*', '/', '*', '/', '\n', ']'])) =
        .ok (.array []) := by
  have scanned : ∃ tokens finish, Token.scan "[]" = .ok (tokens, finish) := ⟨_, _, by cbv⟩
  rcases scanned with ⟨tokens, finish, scanned⟩
  have isGap : Token.Gap ('/' :: '*' :: (['/'] ++ '*' :: '/' :: ['\n'])) :=
    .stars (by decide) (.blank (by decide) .nil)
  have same := (unplaced_ofShell_of_gap scanned).2 _ _ _ _ _ Token.occurs_bracketClose isGap _
    List.mem_cons_self
  refine ⟨Token.occurs_bracketClose, isGap, (same.2 8).1.trans ?_⟩
  cbv

end DocShell
