import DocShell.Proofs.Command.Unplaced
import DocShell.Proofs.Command.Written
import DocShell.Proofs.Token.StringLiteral

namespace DocShell

/-! # Spellings of names in chains

A name in a chain stands behind a point, or between brackets as a literal of a string. The
two are read as different expressions, and only the second one is evaluated, but the links
of the chain are the same; and where the names of a collection are cut into parts matters
no longer once the parts are joined. -/

inductive WrittenName
  | dotted (first : Char) (more : List Char) (starts : Text.isWordStart first = true)
      (inside : ∀ character ∈ more, Text.isWordPart character = true)
  | bracketed (literal : StringLiteral)

namespace WrittenName

def label : WrittenName → String
  | .dotted first more _ _ => String.ofList (first :: more)
  | .bracketed literal => literal.value

def text : WrittenName → List Char
  | .dotted first more _ _ => '.' :: first :: more
  | .bracketed literal => '[' :: (literal.text ++ [']'])

def lexemes : WrittenName → List Lexeme
  | .dotted first more _ _ => [.mark .dot, .word (String.ofList (first :: more))]
  | .bracketed literal => [.mark .bracketOpen, .string literal.value, .mark .bracketClose]

def behind (owner : Expr) : WrittenName → Expr
  | .dotted first more _ _ => .member .start owner (String.ofList (first :: more))
  | .bracketed literal => .index .start owner (.literal .start (.string literal.value))

end WrittenName

structure WrittenArguments where
  text : List Char
  lexemes : List Lexeme
  spelled : ∀ rest, Token.Spells text lexemes (')' :: rest)
  levels : Nat
  given : List Expr
  listed : Grammar.Listed Grammar.Expression Grammar.Expression levels
    (Token.unplaced lexemes) given

def WrittenArguments.none : WrittenArguments where
  text := []
  lexemes := []
  spelled _ := Token.spells_nil _
  levels := 0
  given := []
  listed := .nil

inductive WrittenLink
  | name (name : WrittenName)
  | call (arguments : WrittenArguments)

namespace WrittenLink

def text : WrittenLink → List Char
  | .name written => written.text
  | .call arguments => '(' :: (arguments.text ++ [')'])

def lexemes : WrittenLink → List Lexeme
  | .name written => written.lexemes
  | .call arguments => .mark .parenOpen :: (arguments.lexemes ++ [.mark .parenClose])

def behind (owner : Expr) : WrittenLink → Expr
  | .name written => written.behind owner
  | .call arguments => .call .start owner arguments.given

def link : WrittenLink → Link
  | .name written => .name written.label
  | .call arguments => .call arguments.given .start

end WrittenLink

/-! ## The lexemes of a chain -/

namespace Token

theorem noWordStart_of_isBlank {character : Char} (isBlank : Text.isBlank character = true) :
    Text.isWordStart character = false := by
  have outside := (stops_blank isBlank []).apart.word character rfl
  rw [Text.isWordPart, Bool.or_eq_false_iff] at outside
  exact outside.1

theorem noWordStart_of_isDigit {character : Char} (digit : character.isDigit = true) :
    Text.isWordStart character = false :=
  Text.forall_ascii
    (fun character => character.isDigit = true → Text.isWordStart character = false)
    (by decide +kernel) (Text.toNat_lt_of_isDigit digit) digit

/-- A word of any script, in front of anything that does not go on with it. -/
theorem spells_identifier {first : Char} {more rest : List Char}
    (starts : Text.isWordStart first = true)
    (inside : ∀ character ∈ more, Text.isWordPart character = true)
    (leaves : Text.Leaves Text.isWordPart rest) :
    Spells (first :: more) [.word (String.ofList (first :: more))] rest := by
  refine spells_of_step ?_
  have noBlank : Text.isBlank first = false := by
    cases blank : Text.isBlank first with
    | false => rfl
    | true => cases starts.symm.trans (noWordStart_of_isBlank blank)
  have noDigit : first.isDigit = false := by
    cases digit : first.isDigit with
    | false => rfl
    | true => cases starts.symm.trans (noWordStart_of_isDigit digit)
  have other {mark : Char} (outside : Text.isWordStart mark = false) : first ≠ mark := by
    rintro rfl
    cases starts.symm.trans outside
  have noDot : first ≠ '.' := other (by decide)
  have noQuote : first ≠ '"' ∧ first ≠ '\'' := ⟨other (by decide), other (by decide)⟩
  have noSlash : first ≠ '/' := other (by decide)
  rw [step, Text.takeWhile_run inside leaves]
  simp [noBlank, noDigit, noDot, noQuote, noSlash, starts]

end Token

namespace WrittenName

open Token

theorem spells (written : WrittenName) {rest : List Char}
    (leaves : Text.Leaves Text.isWordPart rest) :
    Spells written.text written.lexemes rest := by
  cases written with
  | dotted first more starts inside =>
      have noDigit : Escape.startsWithDigit (first :: more ++ rest) = false := by
        cases digit : first.isDigit with
        | false => exact digit
        | true => cases starts.symm.trans (noWordStart_of_isDigit digit)
      have dot : Spells ['.'] [.mark .dot] (first :: more ++ rest) := spells_dot noDigit
      exact dot.cons (spells_identifier starts inside leaves)
  | bracketed literal =>
      have noDot : Mark.bracketOpen ≠ .dot ∧ Mark.bracketClose ≠ .dot := by decide
      have closing := spells_mark noDot.2 rest
      exact (spells_mark noDot.1 _).cons ((spells_literalText literal _).cons closing)

end WrittenName

namespace WrittenLink

open Token

def textOf (links : List WrittenLink) : List Char := links.flatMap text

def lexemesOf (links : List WrittenLink) : List Lexeme := links.flatMap lexemes

/-- No link goes on with the name in front of it. -/
theorem leaves_textOf (links : List WrittenLink) :
    Text.Leaves Text.isWordPart (textOf links) := by
  rcases links with _ | ⟨(first | arguments), links⟩
  · exact Text.leaves_nil _
  · cases first with
    | dotted first more starts inside => exact Text.leaves_cons (by decide) _
    | bracketed literal => exact Text.leaves_cons (by decide) _
  · exact Text.leaves_cons (by decide) _

theorem spells_textOf (links : List WrittenLink) : Spells (textOf links) (lexemesOf links) [] := by
  induction links with
  | nil => exact spells_nil []
  | cons first links induction =>
      have front : Spells first.text first.lexemes (textOf links ++ []) := by
        rw [List.append_nil]
        cases first with
        | name written => exact written.spells (leaves_textOf links)
        | call arguments =>
            have noDot : Mark.parenOpen ≠ .dot ∧ Mark.parenClose ≠ .dot := by decide
            have closing := spells_mark noDot.2 (textOf links)
            exact (spells_mark noDot.1 _).cons ((arguments.spelled (textOf links)).append closing)
      exact front.append induction

/-! ## What a chain is read as -/

theorem exists_suffixes (links : List WrittenLink) (owner : Expr) :
    ∃ levels, Grammar.Suffixes Grammar.Expression levels owner (Token.unplaced (lexemesOf links))
      (links.foldl behind owner) := by
  induction links generalizing owner with
  | nil => exact ⟨0, .nil⟩
  | cons first links induction =>
      rcases induction (first.behind owner) with ⟨levels, later⟩
      rw [lexemesOf, List.flatMap_cons, Token.unplaced, List.map_append]
      rcases first with (⟨first, more, starts, inside⟩ | literal) | arguments
      · exact ⟨_, .member rfl rfl later⟩
      · have key : Grammar.Expression 1 ([⟨.string literal.value, .start⟩] ++ [])
            (.literal .start (.string literal.value)) := .chain (.literal rfl) .nil
        exact ⟨_, .index rfl key rfl later⟩
      · rw [lexemes, List.map_cons, List.map_append, List.cons_append, List.append_assoc]
        exact ⟨_, .call rfl arguments.listed rfl later⟩

/-- The links of a chain do not show how its names are spelled. -/
theorem ofExpr_behind (links : List WrittenLink) (following : List Link) (owner : Expr) :
    Link.ofExpr following (links.foldl behind owner) =
      Link.ofExpr (links.map link ++ following) owner := by
  induction links generalizing owner with
  | nil => rfl
  | cons first links induction =>
      rw [List.foldl_cons, induction (first.behind owner), List.map_cons, List.cons_append]
      rcases first with (⟨first, more, starts, inside⟩ | literal) | arguments <;> rfl

end WrittenLink

theorem Token.length_le_of_scanFrom {position finish : Position} {text : List Char}
    {tokens : List Token} (found : scanFrom position text = .ok (tokens, finish)) :
    tokens.length ≤ text.length := by
  fun_induction scanFrom position text generalizing tokens finish with
  | case1 => cases found; exact Nat.zero_le _
  | case2 => cases found
  | case3 => cases found
  | case4 position first rest count more stop later cut induction =>
      cases found
      have inner := induction later
      rw [List.length_drop] at inner
      exact Nat.le_succ_of_le (inner.trans (Nat.sub_le _ _))
  | case5 position first rest count more stop later lexeme cut induction =>
      cases found
      have inner := induction later
      rw [List.length_drop] at inner
      exact Nat.succ_le_succ (inner.trans (Nat.sub_le _ _))

namespace WrittenLink

open Token

/-- A chain amounts to what its links do, within a limit of as many levels as the text has
characters. -/
theorem unplaced_ofShell_textOf (links : List WrittenLink) {limit : Nat}
    (room : ("db".toList ++ textOf links).length ≤ limit) (findLimit : Int) :
    unplaced (Command.ofShell limit findLimit (String.ofList ("db".toList ++ textOf links))) =
      Command.ofLinks findLimit (links.map link) := by
  have db : Spells "db".toList [.word "db"] (textOf links ++ []) := by
    rw [List.append_nil]
    exact spells_identifier (by decide) (List.forall_mem_singleton.mpr (by decide))
      (leaves_textOf links)
  rcases (db.cons (spells_textOf links)).scan with ⟨tokens, finish, scanned, lexemes⟩
  rcases exists_suffixes links (.name .start "db") with ⟨levels, suffixes⟩
  have chain : Grammar.Expression _ (Token.unplaced (.word "db" :: lexemesOf links))
      (links.foldl behind (.name .start "db")) :=
    .chain (.name rfl rfl (by decide)) suffixes
  have short : (Token.unplaced (.word "db" :: lexemesOf links)).length ≤ limit := by
    rw [← lexemes, Token.unplaced, List.length_map, List.length_map]
    rw [scan, String.toList_ofList] at scanned
    exact (length_le_of_scanFrom scanned).trans room
  have read : Expr.ofTokens limit _ .start = _ :=
    Grammar.ofTokens_of_expression chain (chain.levels_le_length.trans short)
  rw [Command.unplaced_ofShell findLimit scanned, lexemes, read]
  change (Link.ofExpr [] _ >>= Command.ofLinks findLimit) = _
  rw [ofExpr_behind, List.append_nil]
  rfl

end WrittenLink

/-! ## Chains -/

/-- A chain as text spells it: the parts of a collection, an operation with its arguments,
and methods with theirs. -/
structure WrittenChain where
  collection : List WrittenName
  operation : WrittenName
  given : WrittenArguments
  calls : List (WrittenName × WrittenArguments)

namespace WrittenChain

def callsLinks (calls : List (WrittenName × WrittenArguments)) : List WrittenLink :=
  calls.flatMap fun call => [.name call.1, .call call.2]

def links (chain : WrittenChain) : List WrittenLink :=
  chain.collection.map .name ++ .name chain.operation :: .call chain.given :: callsLinks chain.calls

def text (chain : WrittenChain) : List Char := "db".toList ++ WrittenLink.textOf chain.links

def target (chain : WrittenChain) : String :=
  ".".intercalate (chain.collection.map WrittenName.label)

/-- The same chain, up to the spelling of its names and up to where the name of the
collection is cut into parts. -/
structure Agrees (first second : WrittenChain) : Prop where
  target : first.target = second.target
  rooted : first.collection = [] ↔ second.collection = []
  operation : first.operation.label = second.operation.label
  given : first.given = second.given
  calls : first.calls.map (Prod.map WrittenName.label id) =
    second.calls.map (Prod.map WrittenName.label id)

/-- What the links up to the first call stand for. -/
theorem ofLinks_links (findLimit : Int) (chain : WrittenChain) :
    Command.ofLinks findLimit (chain.links.map WrittenLink.link) =
      if chain.collection = [] then .error (.unsupported "db" chain.operation.label)
      else Command.begin findLimit chain.target chain.operation.label chain.given.given .start >>=
        fun state => Command.finish chain.target state
          ((callsLinks chain.calls).map WrittenLink.link) := by
  have links : chain.links.map WrittenLink.link =
      (chain.collection.map WrittenName.label ++ [chain.operation.label]).map .name ++
        .call chain.given.given .start :: (callsLinks chain.calls).map WrittenLink.link := by
    simp [WrittenChain.links, WrittenLink.link]
  rw [links, Command.ofLinks, Link.splitAtCall_names]
  simp only [List.reverse_append, List.reverse_singleton, List.singleton_append]
  by_cases rooted : chain.collection = []
  · rw [rooted, if_pos rfl]
    rfl
  · have named : (chain.collection.map WrittenName.label).reverse ≠ [] := by simpa using rooted
    have target : chain.target =
        ".".intercalate (chain.collection.map WrittenName.label).reverse.reverse := by
      rw [List.reverse_reverse, WrittenChain.target]
    rw [if_neg rooted, target]
    generalize (chain.collection.map WrittenName.label).reverse = reversed at named
    cases reversed with
    | nil => exact absurd rfl named
    | cons last parts => rfl

theorem link_callsLinks (calls : List (WrittenName × WrittenArguments)) :
    (callsLinks calls).map WrittenLink.link =
      (calls.map (Prod.map WrittenName.label id)).flatMap fun call =>
        [.name call.1, .call call.2.given .start] := by
  rw [callsLinks, List.map_flatMap, List.flatMap_map]
  rfl

/-- However the names of a chain are spelled and the name of its collection is cut, the chain
is the same command, or fails in the same way apart from places. -/
theorem unplaced_ofShell_of_agrees {first second : WrittenChain} (agrees : first.Agrees second)
    {limit : Nat} (room : first.text.length ≤ limit ∧ second.text.length ≤ limit)
    (findLimit : Int) :
    unplaced (Command.ofShell limit findLimit (String.ofList first.text)) =
      unplaced (Command.ofShell limit findLimit (String.ofList second.text)) := by
  rw [text, text, WrittenLink.unplaced_ofShell_textOf first.links room.1 findLimit,
    WrittenLink.unplaced_ofShell_textOf second.links room.2 findLimit, ofLinks_links, ofLinks_links,
    link_callsLinks, link_callsLinks, agrees.target, agrees.operation, agrees.given, agrees.calls]
  simp only [agrees.rooted]

/-- Two parts behind points, and the same name as one literal with an escape. -/
theorem unplaced_ofShell_quotedPart :
    unplaced (Command.ofShell 22 10 "db['a.\\x62'].find()") =
      .ok [("find", .string "a.b"), ("limit", .number (Double.ofInt 10))] := by
  let part (letter : Char) (starts : Text.isWordStart letter = true) : WrittenName :=
    .dotted letter [] starts (List.forall_mem_nil _)
  let find : WrittenName :=
    .dotted 'f' ['i', 'n', 'd'] (by decide) (List.all_eq_true.mp (by decide))
  let literal : StringLiteral := ⟨'\'', .inr rfl, [.plain 'a' (by decide) (by decide) (by decide),
    .plain '.' (by decide) (by decide) (by decide), .byte 0x62 ['6', '2'] rfl rfl], trivial⟩
  let first : WrittenChain := ⟨[part 'a' (by decide), part 'b' (by decide)], find, .none, []⟩
  let second : WrittenChain := ⟨[.bracketed literal], find, .none, []⟩
  have agrees : first.Agrees second := ⟨rfl, by simp [first, second], rfl, rfl, rfl⟩
  have room : first.text.length ≤ 22 ∧ second.text.length ≤ 22 := by decide
  have same := unplaced_ofShell_of_agrees agrees room 10
  have made : Command.ofLinks 10 (first.links.map WrittenLink.link) =
      .ok [("find", .string "a.b"), ("limit", .number (Double.ofInt 10))] := rfl
  have text : String.ofList second.text = "db['a.\\x62'].find()" := by decide
  rw [text] at same
  exact same.symm.trans ((WrittenLink.unplaced_ofShell_textOf first.links room.1 10).trans made)

end WrittenChain

end DocShell
