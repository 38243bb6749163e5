import DocShell.Proofs.Expr.Derivable

namespace DocShell.Grammar

open Reader

/-! # What is read derives

Whatever a reader finds in the given room, the grammar derives from the tokens that it took,
and with no more levels than there is room. -/

/-- Tokens with a front from which a form derives an item, in front of a rest. -/
def Front {ι : Type} (form : Form ι) (room : Nat) (tokens : List Token) (item : ι)
    (rest : List Token) : Prop :=
  ∃ levels front, tokens = front ++ rest ∧ levels ≤ room ∧ form levels front item

def ClosedFront {ι : Type} (form : Form ι) (room : Nat) (closing : Mark) (tokens : List Token)
    (item : ι) (rest : List Token) : Prop :=
  ∃ levels front closed, tokens = front ++ closed :: rest ∧ closed.lexeme = .mark closing ∧
    levels ≤ room ∧ form levels front item

/-- A front up to its closing mark, behind the mark that opens it. -/
theorem ClosedFront.between {ι κ : Type} {inner : Form ι} {outer : Form κ} {room : Nat}
    {closing : Mark} {opening : Token} {tokens rest : List Token} {item : ι} {made : κ}
    (closed : ClosedFront inner room closing tokens item rest) (extra : Nat)
    (rule : ∀ {levels : Nat} {front : List Token} {mark : Token}, inner levels front item →
      mark.lexeme = .mark closing → outer (levels + extra) (opening :: (front ++ [mark])) made) :
    Front outer (room + extra) (opening :: tokens) made rest := by
  rcases closed with ⟨levels, front, mark, rfl, closes, fits, derived⟩
  refine ⟨levels + extra, opening :: (front ++ [mark]), ?_, Nat.add_le_add_right fits extra,
    rule derived closes⟩
  rw [List.cons_append, List.append_assoc, List.singleton_append]

/-- The same in front of more that is found, which shares the level of the marks. -/
theorem ClosedFront.followed {ι κ : Type} {inner : Form ι} {later outer : Form κ} {room : Nat}
    {closing : Mark} {opening : Token} {tokens behind rest : List Token} {item : ι} {made : κ}
    (closed : ClosedFront inner room closing tokens item behind)
    (found : Front later room behind made rest)
    (rule : ∀ {inside levels : Nat} {front back : List Token} {mark : Token},
      inner inside front item → mark.lexeme = .mark closing → later levels back made →
        outer (max inside levels + 1) (opening :: (front ++ mark :: back)) made) :
    Front outer (room + 1) (opening :: tokens) made rest := by
  rcases closed with ⟨inside, front, mark, rfl, closes, insideFits, derived⟩
  rcases found with ⟨levels, back, rfl, fits, onward⟩
  exact ⟨max inside levels + 1, opening :: (front ++ mark :: back), (bracketed_append ..).symm,
    Nat.succ_le_succ (Nat.max_le.mpr ⟨insideFits, fits⟩), rule derived closes onward⟩

def Explains (context : Context) (room : Nat) (form : Form Expr) : Prop :=
  ∀ tokens expr rest, outcome (expression context room tokens) = .ok (expr, rest) →
    Front form room tokens expr rest

/-! ## Lists -/

theorem closedFront_of_listed {ι : Type} {context : Context} {room : Nat} {each last : Form ι}
    {closing : Mark} {read : List Token → Except Failure (ι × List Token)}
    {all : List Token → Except Failure (List ι × List Token)}
    (lists : ReadsList context closing read all)
    (eachFound : ∀ tokens item rest, read tokens = .ok (item, rest) →
      Front each room tokens item rest)
    (lastFound : ∀ tokens item rest, read tokens = .ok (item, rest) →
      after? .comma rest = none → Front last room tokens item rest)
    {tokens rest : List Token} {items : List ι} (found : all tokens = .ok (items, rest)) :
    ClosedFront (Listed each last) room closing tokens items rest := by
  -- An item may be a hole, which takes no token; it is the comma that leaves fewer.
  induction length : tokens.length using Nat.strongRecOn generalizing tokens items with
  | ind count induction =>
      rw [lists.equation] at found
      split at found
      · cases found
        rcases exists_of_after? ‹_› with ⟨closed, rfl, closes⟩
        exact ⟨0, [], closed, rfl, closes, Nat.zero_le room, .nil⟩
      · rcases bind_eq_ok.mp found with ⟨⟨item, behind⟩, first, onward⟩
        unfold behindItem at onward
        split at onward
        · rename_i inner comma
          rcases bind_pure_eq_ok.mp onward with ⟨⟨more, last⟩, others, equal⟩
          cases equal
          rcases exists_of_after? comma with ⟨mark, rfl, isComma⟩
          rcases eachFound _ _ _ first with ⟨levels, front, rfl, fits, derived⟩
          have shorter : inner.length < count := by
            rw [← length, List.length_append, List.length_cons]
            omega
          rcases induction _ shorter others rfl with
            ⟨moreLevels, back, closed, rfl, closes, moreFits, listed⟩
          refine ⟨max levels moreLevels, front ++ mark :: back, closed, ?_, closes,
            Nat.max_le.mpr ⟨fits, moreFits⟩, .cons derived isComma listed⟩
          rw [List.append_assoc, List.cons_append]
        · rename_i noComma
          rcases bind_pure_eq_ok.mp onward with ⟨last, closesHere, equal⟩
          cases equal
          rcases exists_of_expect closesHere with ⟨closed, rfl, closes⟩
          rcases lastFound _ _ _ first noComma with ⟨levels, front, rfl, fits, derived⟩
          exact ⟨levels, front, closed, rfl, closes, fits, .last derived⟩

section

variable {context : Context} {room : Nat} {form : Form Expr} {tokens rest : List Token}
  (explains : Explains context room form)

include explains

theorem Explains.closed {closing : Mark} {behind : List Token} {expr : Expr}
    (read : outcome (expression context room tokens) = .ok (expr, behind))
    (closes : expect context closing behind = .ok rest) :
    ClosedFront form room closing tokens expr rest := by
  rcases explains _ _ _ read with ⟨levels, front, rfl, fits, derived⟩
  rcases exists_of_expect closes with ⟨mark, rfl, isClosing⟩
  exact ⟨levels, front, mark, rfl, isClosing, fits, derived⟩

theorem Explains.arguments {given : List Expr}
    (found : outcome (arguments context (expression context room) tokens) = .ok (given, rest)) :
    ClosedFront (Listed form form) room .parenClose tokens given rest :=
  closedFront_of_listed (readsList_arguments context _) explains
    (fun tokens item rest found _ => explains tokens item rest found) found

/-- An item that no comma follows is no hole. -/
theorem Explains.item {item : Option Expr}
    (found : itemOrHole (expression context room) tokens = .ok (item, rest)) :
    Front (ItemOrHole form) room tokens item rest ∧
      (after? .comma rest = none → Front (Item form) room tokens item rest) := by
  unfold itemOrHole at found
  split at found
  · rename_i inner comma
    cases found
    refine ⟨⟨0, [], rfl, Nat.zero_le room, .hole⟩, fun noComma => ?_⟩
    rw [comma] at noComma
    cases noComma
  · rcases bind_pure_eq_ok.mp found with ⟨⟨expr, behind⟩, read, equal⟩
    cases equal
    rcases explains _ _ _ read with ⟨levels, front, equal, fits, derived⟩
    exact ⟨⟨levels, front, equal, fits, .item (.present derived)⟩,
      fun _ => ⟨levels, front, equal, fits, .present derived⟩⟩

theorem Explains.items {items : List (Option Expr)}
    (found : outcome (Reader.items context (expression context room) tokens) = .ok (items, rest)) :
    ClosedFront (Listed (ItemOrHole form) (Item form)) room .bracketClose tokens items rest :=
  closedFront_of_listed (readsList_items context _)
    (fun _ _ _ found => (explains.item found).1) (fun _ _ _ found => (explains.item found).2) found

theorem Explains.keyed {key : String} {field : String × Expr}
    (found : outcome (keyed context (expression context room) key tokens) = .ok (field, rest)) :
    ∃ levels colon front, tokens = colon :: (front ++ rest) ∧ colon.lexeme = .mark .colon ∧
      levels ≤ room ∧ field.1 = key ∧ form levels front field.2 := by
  rw [outcome_keyed] at found
  rcases bind_eq_ok.mp found with ⟨behind, mark, onward⟩
  rcases bind_pure_eq_ok.mp onward with ⟨⟨value, last⟩, read, equal⟩
  cases equal
  rcases exists_of_expect mark with ⟨colon, rfl, isColon⟩
  rcases explains _ _ _ read with ⟨levels, front, rfl, fits, derived⟩
  exact ⟨levels, colon, front, rfl, isColon, fits, rfl, derived⟩

theorem Explains.field {field : String × Expr}
    (found : outcome (Reader.field context (expression context room) tokens) = .ok (field, rest)) :
    Front (Field form) room tokens field rest := by
  have withKey {token : Token} {behind : List Token} {key : String}
      (spelled : key? token.lexeme = some key)
      (found : outcome (Reader.keyed context (expression context room) key behind) =
        .ok (field, rest)) : Front (Field form) room (token :: behind) field rest := by
    rcases explains.keyed found with ⟨levels, colon, front, rfl, isColon, fits, rfl, derived⟩
    exact ⟨levels, token :: colon :: front, rfl, fits, .keyed spelled isColon derived⟩
  cases tokens with
  | nil => cases found
  | cons token behind =>
      rw [outcome_field] at found
      split at found
      · rename_i label word
        split at found
        · exact withKey (by rw [word]; rfl) found
        · cases found
          exact ⟨0, [token], rfl, Nat.zero_le room, .shorthand word⟩
      · rename_i text string
        exact withKey (by rw [string]; rfl) found
      · rename_i written number
        exact withKey (by rw [number]; rfl) found
      · cases found

theorem Explains.fields {fields : List (String × Expr)}
    (found : outcome (Reader.fields context (expression context room) tokens) =
      .ok (fields, rest)) :
    ClosedFront (Listed (Field form) (Field form)) room .braceClose tokens fields rest :=
  closedFront_of_listed (readsList_fields context _)
    (fun _ _ _ => explains.field) (fun _ _ _ found _ => explains.field found) found

end

/-! ## Suffixes and paths -/

theorem Ends.of_append {behind rest : List Token} (ends : Ends (behind ++ rest)) : Ends behind := by
  cases behind with
  | nil =>
      intro token member
      cases member
  | cons first more => exact ends

theorem Path.of_append {form : Form Expr} {levels : Nat} {start : Position} {callee whole : Expr}
    {tokens behind rest : List Token}
    (path : Path form levels start callee tokens (behind ++ rest) whole) :
    Path form levels start callee tokens behind whole := by
  generalize equal : behind ++ rest = onward at path
  induction path with
  | bare ends =>
      subst equal
      exact .bare ends.of_append
  | call opens inner closes => exact .call opens inner closes
  | member mark word later induction => exact .member mark word (induction equal)

theorem Primary.of_append {form : Form Expr} {levels : Nat} {expr : Expr}
    {tokens behind rest : List Token}
    (primary : Primary form levels tokens (behind ++ rest) expr) :
    Primary form levels tokens behind expr := by
  cases primary with
  | literal reads => exact .literal reads
  | name word noKeyword noNew => exact .name word noKeyword noNew
  | group opens inside closes => exact .group opens inside closes
  | array opens inside closes => exact .array opens inside closes
  | object opens inside closes => exact .object opens inside closes
  | new new word path => exact .new new word path.of_append

section

variable {context : Context} {room : Nat} {form : Form Expr} {tokens rest : List Token}

theorem suffixes_of_outcome (explains : ∀ less < room, Explains context less form)
    {owner whole : Expr}
    (found : outcome (suffixes context room owner tokens) = .ok (whole, rest)) :
    Front (fun levels => Suffixes form levels owner) room tokens whole rest := by
  have none {expr : Expr} {tokens : List Token}
      (found : (.ok (expr, tokens) : Except Failure _) = .ok (whole, rest)) (room : Nat) :
      Front (fun levels => Suffixes form levels expr) room tokens whole rest := by
    cases found
    exact ⟨0, [], rfl, Nat.zero_le room, .nil⟩
  -- On the room, of which every suffix takes a level.
  induction room generalizing owner tokens with
  | zero =>
      rw [outcome_suffixes_zero] at found
      split at found
      · cases found
      · exact none found 0
  | succ room induction =>
      have inner := explains room (Nat.lt_succ_self room)
      have onward {owner : Expr} {tokens : List Token}
          (found : outcome (suffixes context room owner tokens) = .ok (whole, rest)) :=
        induction (fun less bound => explains less (Nat.lt_succ_of_lt bound)) found
      cases tokens with
      | nil =>
          rw [outcome_suffixes_nil] at found
          exact none found _
      | cons token behind =>
          rw [outcome_suffixes] at found
          split at found
          · rename_i mark
            rcases bind_eq_ok.mp found with ⟨⟨label, last⟩, word, later⟩
            rcases exists_of_expectWord word with ⟨name, rfl, isWord⟩
            rcases onward later with ⟨levels, front, rfl, fits, derived⟩
            exact ⟨levels + 1, token :: name :: front, rfl, Nat.succ_le_succ fits,
              .member mark isWord derived⟩
          · rename_i mark
            rcases bind_eq_ok.mp found with ⟨⟨key, inside⟩, read, closed⟩
            rcases bind_eq_ok.mp closed with ⟨last, closes, later⟩
            exact (inner.closed read closes).followed (onward later) fun derived isClosing =>
              .index mark derived isClosing
          · rename_i mark
            rcases bind_eq_ok.mp found with ⟨⟨given, last⟩, read, later⟩
            exact (inner.arguments read).followed (onward later) fun listed isClosing =>
              .call mark listed isClosing
          · exact none found _

theorem bare_of_ends {behind : List Token} {start : Position} {callee whole : Expr}
    (noDot : after? .dot behind = none) (noCall : after? .parenOpen behind = none)
    (found : (.ok (.new start callee [], behind) : Except Failure _) = .ok (whole, rest)) :
    Front (fun levels front => Path form levels start callee front rest) room behind whole rest := by
  cases found
  refine ⟨0, [], rfl, Nat.zero_le room, .bare ?_⟩
  cases rest with
  | nil =>
      intro token member
      cases member
  | cons first more =>
      intro token member
      cases member
      rw [after?] at noDot noCall
      split at noDot
      · cases noDot
      split at noCall
      · cases noCall
      exact ⟨‹_›, ‹_›⟩

theorem path_of_arguments {start : Position} {callee whole : Expr} {inside : List Token}
    (explains : Explains context room form) (opened : after? .parenOpen tokens = some inside)
    (found : (outcome (arguments context (expression context room) inside)).map
      (fun found => (Expr.new start callee found.1, found.2)) = .ok (whole, rest)) :
    Front (fun levels front => Path form levels start callee front rest) room tokens whole rest := by
  rcases exists_of_after? opened with ⟨opening, rfl, isOpening⟩
  rcases bind_pure_eq_ok.mp found with ⟨⟨given, last⟩, read, equal⟩
  cases equal
  exact (explains.arguments read).between 0 fun listed isClosing =>
    .call isOpening listed isClosing

theorem path_of_pathBehindName (explains : ∀ less < room + 1, Explains context less form)
    {start : Position} {callee whole : Expr}
    (found : pathBehindName context room start callee tokens = .ok (whole, rest)) :
    Front (fun levels front => Path form levels start callee front rest) room tokens whole rest := by
  induction room generalizing callee tokens with
  | zero =>
      rw [pathBehindName] at found
      split at found
      · exact path_of_arguments (explains 0 Nat.one_pos) ‹_› found
      · rename_i noCall
        rw [outcome_path_zero] at found
        split at found
        · cases found
        · exact bare_of_ends ‹_› noCall found
  | succ room induction =>
      rw [pathBehindName] at found
      split at found
      · exact path_of_arguments (explains (room + 1) (Nat.lt_succ_self _)) ‹_› found
      · rename_i noCall
        rw [outcome_path] at found
        split at found
        · exact bare_of_ends ‹_› noCall found
        · rename_i behind dotted
          rcases exists_of_after? dotted with ⟨dot, rfl, isDot⟩
          rcases bind_eq_ok.mp found with ⟨⟨label, last⟩, word, onward⟩
          rcases exists_of_expectWord word with ⟨name, rfl, isWord⟩
          rcases induction (fun less bound => explains less (Nat.lt_succ_of_lt bound)) onward with
            ⟨levels, front, rfl, fits, derived⟩
          exact ⟨levels + 1, dot :: name :: front, rfl, Nat.succ_le_succ fits,
            .member isDot isWord derived⟩

/-! ## Expressions -/

theorem primary_of_construction (explains : ∀ less < room + 1, Explains context less form)
    {token : Token} {behind : List Token} {expr : Expr} (new : token.lexeme = .word "new")
    (found : outcome (construction context room token.position behind) = .ok (expr, rest)) :
    Front (fun levels front => Primary form levels front rest) room (token :: behind) expr
      rest := by
  rw [outcome_construction] at found
  rcases bind_eq_ok.mp found with ⟨⟨first, last⟩, name, onward⟩
  rcases exists_of_expectWord name with ⟨nameToken, rfl, isWord⟩
  rcases path_of_pathBehindName explains onward with ⟨levels, front, rfl, fits, derived⟩
  exact ⟨levels, token :: nameToken :: front, rfl, fits, .new new isWord derived⟩

theorem primary_of_outcome (explains : ∀ less < room + 1, Explains context less form)
    {expr : Expr}
    (found : outcome (primary context (expression context room) (nested context room)
      (construction context room) tokens) = .ok (expr, rest)) :
    Front (fun levels front => Primary form levels front rest) room tokens expr rest := by
  cases tokens with
  | nil => cases found
  | cons token behind =>
      have literal {literal : Literal} (reads : literal? token.lexeme = some literal)
          (equal : (.ok (.literal token.position literal, behind) : Except Failure _) =
            .ok (expr, rest)) :
          Front (fun levels front => Primary form levels front rest) room (token :: behind) expr
            rest := by
        cases equal
        exact ⟨0, [token], rfl, Nat.zero_le room, .literal reads⟩
      rw [outcome_primary] at found
      split at found
      · exact literal (by rw [‹token.lexeme = _›]; rfl) found
      · exact literal (by rw [‹token.lexeme = _›]; rfl) found
      · exact literal (by rw [‹token.lexeme = _›]; rfl) found
      · rename_i label word
        split at found
        · rename_i value keyword
          exact literal (by rw [word]; exact keyword) found
        · rename_i noKeyword
          split at found
          · rename_i isNew
            exact primary_of_construction explains (isNew ▸ word) found
          · rename_i noNew
            cases found
            exact ⟨0, [token], rfl, Nat.zero_le room, .name word noKeyword noNew⟩
      · rename_i opens
        rcases bind_eq_ok.mp found with ⟨⟨inner, last⟩, read, onward⟩
        rcases bind_pure_eq_ok.mp onward with ⟨final, closes, equal⟩
        cases equal
        have inner := explains room (Nat.lt_succ_self room)
        exact (inner.closed read closes).between 0 fun derived isClosing =>
          .group opens derived isClosing
      · rename_i opens
        cases room with
        | zero => cases found
        | succ room =>
            rcases bind_pure_eq_ok.mp found with ⟨⟨items, last⟩, read, equal⟩
            cases equal
            have inner := explains room (Nat.lt_succ_of_lt (Nat.lt_succ_self room))
            exact (inner.items read).between 1 fun listed isClosing =>
              .array opens listed isClosing
      · rename_i opens
        cases room with
        | zero => cases found
        | succ room =>
            rcases bind_pure_eq_ok.mp found with ⟨⟨fields, last⟩, read, equal⟩
            cases equal
            have inner := explains room (Nat.lt_succ_of_lt (Nat.lt_succ_self room))
            exact (inner.fields read).between 1 fun listed isClosing =>
              .object opens listed isClosing
      · cases found

end

theorem explains_expression (context : Context) (room : Nat) :
    Explains context room Expression := by
  induction room using Nat.strongRecOn with
  | ind room explains =>
      intro tokens expr rest found
      cases room with
      | zero =>
          rw [outcome_expression_zero] at found
          cases found
      | succ room =>
          cases tokens with
          | nil =>
              rw [outcome_expression_nil] at found
              cases found
          | cons token behind =>
              rw [outcome_expression] at found
              split at found
              · rename_i sign reads
                rcases bind_pure_eq_ok.mp found with ⟨⟨operand, last⟩, read, equal⟩
                cases equal
                rcases explains room (Nat.lt_succ_self room) _ _ _ read with
                  ⟨levels, front, rfl, fits, derived⟩
                exact ⟨levels + 1, token :: front, rfl, Nat.succ_le_succ fits,
                  .signed reads derived⟩
              · rcases bind_eq_ok.mp found with ⟨⟨start, last⟩, first, later⟩
                rcases primary_of_outcome explains first with
                  ⟨levels, front, split, fits, primary⟩
                rcases suffixes_of_outcome
                    (fun less bound => explains less (Nat.lt_succ_of_lt bound)) later with
                  ⟨more, back, rfl, moreFits, suffixes⟩
                refine ⟨max levels more + 1, front ++ back, ?_,
                  Nat.succ_le_succ (Nat.max_le.mpr ⟨fits, moreFits⟩),
                  .chain primary.of_append suffixes⟩
                rw [split, List.append_assoc]

/-! ## Whole texts -/

theorem skipSemicolons_append {before tokens : List Token}
    (leading : ∀ token ∈ before, token.lexeme = .mark .semicolon) :
    Expr.skipSemicolons (before ++ tokens) = Expr.skipSemicolons tokens := by
  rw [Expr.skipSemicolons, List.dropWhile_append_of_pos (by simpa using leading)]
  rfl

theorem exists_semicolons (tokens : List Token) :
    ∃ before, tokens = before ++ Expr.skipSemicolons tokens ∧
      ∀ token ∈ before, token.lexeme = .mark .semicolon := by
  refine ⟨tokens.takeWhile fun token => token.lexeme = .mark .semicolon,
    List.takeWhile_append_dropWhile.symm, fun token member => ?_⟩
  simpa using (List.all_eq_true.mp List.all_takeWhile) token member

theorem skipSemicolons_eq_nil {tokens : List Token} :
    Expr.skipSemicolons tokens = [] ↔ ∀ token ∈ tokens, token.lexeme = .mark .semicolon := by
  constructor
  · intro skipped
    rcases exists_semicolons tokens with ⟨before, split, leading⟩
    rw [skipped, List.append_nil] at split
    exact split ▸ leading
  · intro semicolons
    have skipped := @skipSemicolons_append tokens [] semicolons
    rwa [List.append_nil] at skipped

theorem program_of_ofTokens {limit : Nat} {tokens : List Token} {finish : Position}
    {found : Option Expr} (read : Expr.ofTokens limit tokens finish = .ok found) :
    ∃ levels ≤ limit, Program levels tokens found := by
  rw [Expr.ofTokens_eq] at read
  split at read
  · rename_i skipped
    cases read
    exact ⟨0, Nat.zero_le limit, .nothing (skipSemicolons_eq_nil.mp skipped)⟩
  · rcases bind_eq_ok.mp read with ⟨⟨expr, behind⟩, outcome, last⟩
    dsimp only at last
    split at last
    · rename_i skipped
      cases last
      rcases explains_expression _ _ _ _ _ outcome with ⟨levels, front, equal, fits, derived⟩
      rcases exists_semicolons tokens with ⟨before, split, leading⟩
      have program := Program.expression leading derived (skipSemicolons_eq_nil.mp skipped)
      rw [List.append_assoc, ← equal, ← split] at program
      exact ⟨levels, fits, program⟩
    · cases last

theorem ofTokens_of_program {limit levels : Nat} {tokens : List Token} {finish : Position}
    {found : Option Expr} (program : Program levels tokens found) (fits : levels ≤ limit) :
    Expr.ofTokens limit tokens finish = .ok found := by
  cases program with
  | nothing semicolons => simp only [Expr.ofTokens, skipSemicolons_eq_nil.mpr semicolons]
  | @expression _ before tokens behind expr leading inner trailing =>
      have settled : Settled behind := by
        intro token member
        rw [trailing token (List.mem_of_mem_head? member)]
        decide
      have read := (read_expression ⟨limit, finish⟩ limit).reads _ _ _ inner fits behind settled
      rcases inner.begins with ⟨first, more, rfl, noStop⟩
      have noSemicolon : first.lexeme ≠ .mark .semicolon := by
        intro equal
        rw [equal] at noStop
        exact noStop (by decide)
      have skip : Expr.ofTokens limit (before ++ (first :: more) ++ behind) finish =
          Expr.ofTokens limit (first :: more ++ behind) finish := by
        rw [List.append_assoc]
        simp only [Expr.ofTokens, skipSemicolons_append leading]
      rw [skip, List.cons_append, Expr.ofTokens_cons limit noSemicolon]
      rw [List.cons_append] at read
      simp only [read, Except.bind, skipSemicolons_eq_nil.mpr trailing]

theorem ofTokens_of_expression {limit levels : Nat} {tokens : List Token} {finish : Position}
    {expr : Expr} (expression : Expression levels tokens expr) (fits : levels ≤ limit) :
    Expr.ofTokens limit tokens finish = .ok (some expr) := by
  have program : Program levels ([] ++ tokens ++ []) (some expr) :=
    .expression (List.forall_mem_nil _) expression (List.forall_mem_nil _)
  rw [List.nil_append, List.append_nil] at program
  exact ofTokens_of_program program fits

/-- Reading succeeds within a limit just if some derivation keeps to it. -/
theorem ofTokens_eq_ok_iff {limit : Nat} {tokens : List Token} {finish : Position}
    {found : Option Expr} :
    Expr.ofTokens limit tokens finish = .ok found ↔ ∃ levels ≤ limit, Program levels tokens found :=
  ⟨program_of_ofTokens, fun ⟨_, fits, program⟩ => ofTokens_of_program program fits⟩

theorem Program.unique {levels others : Nat} {tokens : List Token} {one other : Option Expr}
    (first : Program levels tokens one) (second : Program others tokens other) : one = other := by
  have read : Expr.ofTokens (max levels others) tokens .start = .ok one :=
    ofTokens_of_program first (Nat.le_max_left levels others)
  rw [ofTokens_of_program second (Nat.le_max_right levels others)] at read
  exact (Except.ok.inj read).symm

/-- Under a limit of at least as many levels as there are tokens, reading succeeds on just
the texts that the grammar derives, with the one tree that it derives. -/
theorem ofTokens_iff_program (limit : Nat) (tokens : List Token) (finish : Position)
    (enough : tokens.length ≤ limit) :
    (∀ found, Expr.ofTokens limit tokens finish = .ok found ↔
      ∃ levels, Program levels tokens found) ∧
    ∀ levels others one other, Program levels tokens one → Program others tokens other →
      one = other := by
  refine ⟨fun found => ofTokens_eq_ok_iff.trans ?_, fun _ _ _ _ first second => first.unique second⟩
  constructor
  · rintro ⟨levels, _, program⟩
    exact ⟨levels, program⟩
  · rintro ⟨levels, program⟩
    exact ⟨levels, Nat.le_trans program.levels_le_length enough, program⟩

/-- In `new a.b(c,).d` the arguments belong to `new`, and the last name to what it makes. -/
theorem ofTokens_iff_program_new :
    let token (column : Nat) (lexeme : Lexeme) : Token := ⟨lexeme, ⟨1, column⟩⟩
    let tokens := [token 1 (.word "new"), token 5 (.word "a"), token 6 (.mark .dot),
      token 7 (.word "b"), token 8 (.mark .parenOpen), token 9 (.word "c"),
      token 10 (.mark .comma), token 11 (.mark .parenClose), token 12 (.mark .dot),
      token 13 (.word "d")]
    tokens.length ≤ 22 ∧ ∃ levels, Program levels tokens (some (.member ⟨1, 12⟩
      (.new ⟨1, 1⟩ (.member ⟨1, 6⟩ (.name ⟨1, 5⟩ "a") "b") [.name ⟨1, 9⟩ "c"]) "d")) :=
  ⟨by decide, ((ofTokens_iff_program 22 _ ⟨1, 14⟩ (by decide)).1 _).mp (by cbv)⟩

end DocShell.Grammar
