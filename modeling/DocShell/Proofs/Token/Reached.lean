import DocShell.Proofs.Text.Position
import DocShell.Token.Scan

namespace DocShell.Token

/-! # Where tokens begin

A text is cut by steps from its start on. What a step finds stands behind the characters
that the steps before it have passed, and its position is counted over just these. -/

/-- Steps from the start of a text lead behind its front, to what is left of it. -/
inductive Reached (text : List Char) : (front rest : List Char) → Prop
  | start : Reached text [] text
  | step {front : List Char} {first : Char} {rest : List Char} {piece : Piece} {count : Nat}
      (reached : Reached text front (first :: rest))
      (cut : step first rest = .ok (piece, count)) :
      Reached text (front ++ first :: rest.take count) (rest.drop count)

theorem Reached.append_eq {text front rest : List Char} (reached : Reached text front rest) :
    front ++ rest = text := by
  induction reached with
  | start => rfl
  | step _ _ induction =>
      rw [List.append_assoc, List.cons_append, List.take_append_drop, induction]

def Stands (text front : List Char) (lexeme : Lexeme) : Prop :=
  ∃ first rest count, Reached text front (first :: rest) ∧
    step first rest = .ok (.lexeme lexeme, count)

def Spoiled (text front : List Char) (fault : ScanFault) : Prop :=
  ∃ first rest, Reached text front (first :: rest) ∧ step first rest = .error fault

def places (tokens : List Token) (finish : Position) : List Position :=
  tokens.map (·.position) ++ [finish]

theorem position_mem_places {token : Token} {tokens : List Token} (finish : Position)
    (member : token ∈ tokens) : token.position ∈ places tokens finish :=
  List.mem_append_left _ (List.mem_map_of_mem member)

theorem finish_mem_places (tokens : List Token) (finish : Position) :
    finish ∈ places tokens finish := List.mem_append_right _ (List.mem_singleton_self finish)

/-- The places of a text that a failure may name: if some lexeme is spoiled, only where that
one begins. -/
def sites (text : String) : List Position :=
  match scan text with
  | .ok (tokens, finish) => places tokens finish
  | .error (_, place) => [place]

/-- A scan of a text, wherever it begins, counts positions over all of the text: tokens and
a fault are located where their lexemes begin, and the end behind everything. -/
def Counted (text : List Char) : Except (ScanFault × Position) (List Token × Position) → Prop
  | .ok (tokens, finish) =>
      (∀ token ∈ tokens, ∃ before, Stands text before token.lexeme ∧
        token.position = .counted before) ∧ finish = .counted text
  | .error (fault, place) => ∃ before, Spoiled text before fault ∧ place = .counted before

variable {text front rest : List Char} {position finish : Position} {tokens : List Token}

theorem counted_of_scanFrom (reached : Reached text front rest) (here : position = .counted front) :
    Counted text (scanFrom position rest) := by
  fun_induction scanFrom position rest generalizing front with
  | case1 position =>
      refine ⟨fun _ member => absurd member List.not_mem_nil, ?_⟩
      rw [here, ← reached.append_eq, List.append_nil]
  | case2 position first rest fault spoiled => exact ⟨front, ⟨first, rest, reached, spoiled⟩, here⟩
  | case3 position first rest piece count cut located later induction =>
      subst here
      have counted := induction (.step reached cut) (Position.counted_append _ _).symm
      rwa [later] at counted
  | case4 position first rest count tokens finish later cut induction =>
      subst here
      have counted := induction (.step reached cut) (Position.counted_append _ _).symm
      rwa [later] at counted
  | case5 position first rest count tokens finish later lexeme cut induction =>
      subst here
      have counted := induction (.step reached cut) (Position.counted_append _ _).symm
      rw [later] at counted
      refine ⟨fun token member => ?_, counted.2⟩
      rcases List.mem_cons.mp member with rfl | inner
      · exact ⟨front, ⟨first, rest, count, reached, cut⟩, rfl⟩
      · exact counted.1 token inner

/-- What is located behind the front of a text is located behind all that precedes it. -/
theorem precedes_of_scanFrom {before : Position} (ahead : before.Precedes position)
    (found : scanFrom position rest = .ok (tokens, finish)) :
    ∀ place ∈ places tokens finish, before.Precedes place := by
  fun_induction scanFrom position rest generalizing tokens finish with
  | case1 position =>
      cases found
      intro place member
      rwa [List.mem_singleton.mp member]
  | case2 => cases found
  | case3 => cases found
  | case4 position first rest count more stop later cut induction =>
      cases found
      exact induction (ahead.trans (Position.precedes_afterAll position first _)) later
  | case5 position first rest count more stop later lexeme cut induction =>
      cases found
      intro place member
      rcases List.mem_cons.mp member with rfl | inner
      · exact ahead
      · exact induction (ahead.trans (Position.precedes_afterAll position first _)) later place inner

/-- Tokens are located in order, and before the end of their text. -/
theorem pairwise_of_scanFrom (found : scanFrom position rest = .ok (tokens, finish)) :
    (places tokens finish).Pairwise Position.Precedes := by
  fun_induction scanFrom position rest generalizing tokens finish with
  | case1 =>
      cases found
      exact List.pairwise_singleton _ _
  | case2 => cases found
  | case3 => cases found
  | case4 position first rest count more stop later cut induction =>
      cases found
      exact induction later
  | case5 position first rest count more stop later lexeme cut induction =>
      cases found
      exact .cons (precedes_of_scanFrom (Position.precedes_afterAll position first _) later)
        (induction later)

end DocShell.Token
