import DocShell.Proofs.Command.Follows
import DocShell.Proofs.Token.Reached

namespace DocShell

/-! # Where failures are located

A failure can name no place of its own making. If all places but some were moved, the run
would end as it did, so a place that it names is one of those that were kept. -/

namespace Change

variable (kept : List Position) (limit : Nat)

/-- Every place but the kept ones one line further down. -/
def aside : Change :=
  ⟨fun position => if position ∈ kept then position else ⟨position.line + 1, position.column⟩,
    limit, 0⟩

variable {kept limit} {position : Position}

theorem move_aside (member : position ∈ kept) : (aside kept limit).move position = position :=
  if_pos member

theorem mem_of_move_aside (stays : (aside kept limit).move position = position) :
    position ∈ kept := by
  by_contra missing
  have moved : (aside kept limit).move position = ⟨position.line + 1, position.column⟩ :=
    if_neg missing
  exact Nat.succ_ne_self position.line (congrArg Position.line (moved.symm.trans stays))

theorem tokens_aside {tokens : List Token} (member : ∀ token ∈ tokens, token.position ∈ kept) :
    (aside kept limit).tokens tokens = tokens := by
  rw [Change.tokens]
  refine (List.map_congr_left fun token inside => ?_).trans (List.map_id tokens)
  rw [Token.moved, move_aside (member token inside), id]

end Change

/-- A run that follows itself when all but the kept places move names a kept place. -/
theorem Follows.mem_of_position {α : Type} {kept : List Position} {limit : Nat}
    {result : Except Failure α} {failure : Failure} {position : Position}
    (follows : Follows (.aside kept limit) id result result) (failed : result = .error failure)
    (named : failure.position? = some position) : position ∈ kept := by
  have same := follows.eq_carried rfl
  rw [failed] at same
  have stays : failure = failure.moved (Change.aside kept limit).move := Except.error.inj same
  have moves := named
  rw [stays, Failure.position?_moved, named] at moves
  exact Change.mem_of_move_aside (Option.some.inj moves)

/-! ## Whole texts -/

section

variable {limit : Nat} {text : String}

/-- A text reads as it does when all places but its sites move. -/
theorem Expr.follows_parse_aside :
    Follows (.aside (Token.sites text) limit)
      (Option.map (Change.aside (Token.sites text) limit).expr)
      (parse limit text) (parse limit text) := by
  rw [parse, Token.sites]
  cases Token.scan text with
  | error located =>
      rcases located with ⟨fault, place⟩
      have kept : (Change.aside [place] limit).move place = place :=
        Change.move_aside (List.mem_singleton_self place)
      exact .inl (congrArg Except.error (congrArg (Failure.unreadable (.scan fault)) kept.symm))
  | ok found =>
      rcases found with ⟨tokens, finish⟩
      have follows := follows_ofTokens (.aside (Token.places tokens finish) limit) tokens finish
      rw [Change.tokens_aside fun token => Token.position_mem_places finish,
        Change.move_aside (Token.finish_mem_places tokens finish)] at follows
      exact follows

/-- Whatever is made of an expression without regard to places, a failure names a site of
the text. -/
theorem mem_sites_of_position {α : Type} {next : Option Expr → Except Failure α}
    (later : ∀ parsed, Follows (.aside (Token.sites text) limit) id (next parsed)
      (next (parsed.map (Change.aside (Token.sites text) limit).expr)))
    {failure : Failure} {position : Position}
    (failed : Expr.parse limit text >>= next = .error failure)
    (named : failure.position? = some position) : position ∈ Token.sites text :=
  (Expr.follows_parse_aside.bind later).mem_of_position failed named

end

/-- The positions of tokens, of a spoiled lexeme and of the end of a text are those counted
over the characters before them; tokens follow in order. A failure names no other position. -/
theorem located_of_ofShell (text : String) :
    (∀ tokens finish, Token.scan text = .ok (tokens, finish) →
        (∀ token ∈ tokens, ∃ front, Token.Stands text.toList front token.lexeme ∧
          token.position = .counted front) ∧
        finish = .counted text.toList ∧
        (Token.places tokens finish).Pairwise Position.Precedes) ∧
      (∀ fault place, Token.scan text = .error (fault, place) →
        ∃ front, Token.Spoiled text.toList front fault ∧ place = .counted front) ∧
      ∀ (limit : Nat) (findLimit : Int) (failure : Failure) (position : Position),
        Value.ofShell limit text = .error failure ∨
          Command.ofShell limit findLimit text = .error failure →
        failure.position? = some position → position ∈ Token.sites text := by
  have counted : Token.Counted text.toList (Token.scan text) :=
    Token.counted_of_scanFrom .start rfl
  refine ⟨fun tokens finish found => ?_, fun fault place spoiled => ?_,
    fun limit findLimit failure position failed named => ?_⟩
  · rw [found] at counted
    exact ⟨counted.1, counted.2, Token.pairwise_of_scanFrom found⟩
  · rw [spoiled] at counted
    exact counted
  · rcases failed with failed | failed
    · exact mem_sites_of_position Value.follows_ofParsed failed named
    · exact mem_sites_of_position (Command.follows_ofParsed findLimit) failed named

theorem Token.scan_below :
    scan "/*\n*/ ['é', b" =
      .ok ([⟨.mark .bracketOpen, ⟨2, 4⟩⟩, ⟨.string "é", ⟨2, 5⟩⟩, ⟨.mark .comma, ⟨2, 8⟩⟩,
        ⟨.word "b", ⟨2, 10⟩⟩], ⟨2, 11⟩) := by cbv

theorem Token.scan_spoiledBelow : scan "'é'\n #" = .error (.unexpectedCharacter, ⟨2, 2⟩) := by cbv

theorem Value.ofShell_unclosedBelow :
    ofShell 9 "/*\n*/ ['é', b" = .error (.unreadable (.unexpected none) ⟨2, 11⟩) := by cbv

theorem located_of_ofShell_below :
    (Token.scan "/*\n*/ ['é', b" =
        .ok ([⟨.mark .bracketOpen, ⟨2, 4⟩⟩, ⟨.string "é", ⟨2, 5⟩⟩, ⟨.mark .comma, ⟨2, 8⟩⟩,
          ⟨.word "b", ⟨2, 10⟩⟩], ⟨2, 11⟩) ∧
      (⟨2, 11⟩ : Position) = .counted "/*\n*/ ['é', b".toList) ∧
    (Token.scan "'é'\n #" = .error (.unexpectedCharacter, ⟨2, 2⟩) ∧
      ∃ front, Token.Spoiled "'é'\n #".toList front .unexpectedCharacter ∧
        (⟨2, 2⟩ : Position) = .counted front) ∧
    Value.ofShell 9 "/*\n*/ ['é', b" = .error (.unreadable (.unexpected none) ⟨2, 11⟩) ∧
      (⟨2, 11⟩ : Position) ∈ Token.sites "/*\n*/ ['é', b" := by
  rcases located_of_ofShell "/*\n*/ ['é', b" with ⟨scanned, _, located⟩
  have spoiled := (located_of_ofShell "'é'\n #").2.1
  exact ⟨⟨Token.scan_below, (scanned _ _ Token.scan_below).2.1⟩,
    ⟨Token.scan_spoiledBelow, spoiled _ _ Token.scan_spoiledBelow⟩, Value.ofShell_unclosedBelow,
    located 9 10 _ _ (.inl Value.ofShell_unclosedBelow) rfl⟩

end DocShell
