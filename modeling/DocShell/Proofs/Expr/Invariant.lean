import DocShell.Proofs.Expr.Outcome
import DocShell.Proofs.Failure.Bind

namespace DocShell.Reader

/-! # Invariants of the readers

What holds of all lexemes of a text, and is kept by every way in which readers put
expressions together, holds of whatever is read. -/

def Throughout (good : Lexeme → Prop) (tokens : List Token) : Prop :=
  ∀ token ∈ tokens, good token.lexeme

theorem Throughout.head {good : Lexeme → Prop} {token : Token} {rest : List Token}
    (all : Throughout good (token :: rest)) : good token.lexeme := all token List.mem_cons_self

theorem Throughout.tail {good : Lexeme → Prop} {token : Token} {rest : List Token}
    (all : Throughout good (token :: rest)) : Throughout good rest :=
  fun other member => all other (List.mem_cons_of_mem _ member)

/-- If an item is read, it has the given property, and the rest is as good as before. -/
def Keeps {ι : Type} (good : Lexeme → Prop) (means : ι → Prop)
    (result : Except Failure (ι × List Token)) : Prop :=
  ∀ item rest, result = .ok (item, rest) → means item ∧ Throughout good rest

section

variable {ι κ : Type} {good : Lexeme → Prop} {means : ι → Prop} {others : κ → Prop}
  {result : Except Failure (ι × List Token)}

theorem keeps_error (failure : Failure) : Keeps good means (.error failure) := by
  intro item rest equal
  cases equal

theorem keeps_ok {item : ι} {rest : List Token} (meant : means item)
    (all : Throughout good rest) : Keeps good means (.ok (item, rest)) := by
  intro other behind equal
  cases equal
  exact ⟨meant, all⟩

theorem Keeps.bind {next : ι × List Token → Except Failure (κ × List Token)}
    (first : Keeps good means result)
    (onward : ∀ item rest, means item → Throughout good rest →
      Keeps good others (next (item, rest))) : Keeps good others (result.bind next) := by
  cases result with
  | error failure => exact keeps_error failure
  | ok found =>
      rcases first found.1 found.2 rfl with ⟨meant, all⟩
      exact onward found.1 found.2 meant all

theorem Keeps.map {transform : ι → κ} (first : Keeps good means result)
    (onward : ∀ item, means item → others (transform item)) :
    Keeps good others (result.map fun found => (transform found.1, found.2)) := by
  cases result with
  | error failure => exact keeps_error failure
  | ok found =>
      rcases first found.1 found.2 rfl with ⟨meant, all⟩
      exact keeps_ok (onward found.1 meant) all

theorem Keeps.imp {weaker : ι → Prop} (first : Keeps good means result)
    (implies : ∀ item, means item → weaker item) : Keeps good weaker result :=
  fun item rest equal => (first item rest equal).imp_left (implies item)

theorem Throughout.after? {expected : Mark} {tokens rest : List Token}
    (all : Throughout good tokens) (found : after? expected tokens = some rest) :
    Throughout good rest := by
  rcases exists_of_after? found with ⟨token, rfl, _⟩
  exact all.tail

theorem keeps_expect_map (context : Context) {expected : Mark} {tokens : List Token} {item : ι}
    (all : Throughout good tokens) (meant : means item) :
    Keeps good means ((expect context expected tokens).map fun rest => (item, rest)) := by
  rw [expect]
  split
  · exact keeps_ok meant (all.after? ‹_›)
  · exact keeps_error _

theorem keeps_expect_bind (context : Context) {expected : Mark} {tokens : List Token}
    {next : List Token → Except Failure (ι × List Token)} (all : Throughout good tokens)
    (onward : ∀ rest, Throughout good rest → Keeps good means (next rest)) :
    Keeps good means ((expect context expected tokens).bind next) := by
  rw [expect]
  split
  · exact onward _ (all.after? ‹_›)
  · exact keeps_error _

theorem keeps_expectWord (context : Context) {tokens : List Token}
    (all : Throughout good tokens) : Keeps good (fun _ => True) (expectWord context tokens) := by
  cases tokens with
  | nil => exact keeps_error _
  | cons token rest =>
      rw [expectWord]
      split
      · exact keeps_ok trivial all.tail
      · exact keeps_error _

theorem length_lt_of_outcome {bound : Nat} {result : Result ι bound} {item : ι} {rest : List Token}
    (found : outcome result = .ok (item, rest)) : rest.length < bound := by
  cases result with
  | error failure => cases found
  | ok taken =>
      cases found
      exact taken.shorter

theorem length_lt_of_after? {expected : Mark} {tokens rest : List Token}
    (found : after? expected tokens = some rest) : rest.length < tokens.length := by
  rcases exists_of_after? found with ⟨token, rfl, _⟩
  exact Nat.lt_succ_self rest.length

end

/-! ## Lists -/

def behindItem {ι : Type} (context : Context) (closing : Mark)
    (all : List Token → Except Failure (List ι × List Token)) (item : ι) (behind : List Token) :
    Except Failure (List ι × List Token) :=
  match after? .comma behind with
  | some rest => (all rest).map fun more => (item :: more.1, more.2)
  | none => (expect context closing behind).map fun rest => ([item], rest)

structure ReadsList {ι : Type} (context : Context) (closing : Mark)
    (each : List Token → Except Failure (ι × List Token))
    (all : List Token → Except Failure (List ι × List Token)) : Prop where
  equation : ∀ tokens, all tokens = match after? closing tokens with
    | some rest => .ok ([], rest)
    | none => (each tokens).bind fun found => behindItem context closing all found.1 found.2
  shorter : ∀ tokens item rest, each tokens = .ok (item, rest) → rest.length ≤ tokens.length

section

variable (context : Context) (read : Of Expr)

theorem readsList_arguments : ReadsList context .parenClose (fun tokens => outcome (read tokens))
    fun tokens => outcome (arguments context read tokens) where
  equation := outcome_arguments context read
  shorter _ _ _ found := Nat.le_of_lt (length_lt_of_outcome found)

def itemOrHole (read : Of Expr) (tokens : List Token) :
    Except Failure (Option Expr × List Token) :=
  match after? .comma tokens with
  | some _ => .ok (none, tokens)
  | none => (outcome (read tokens)).map fun found => (some found.1, found.2)

theorem outcome_items_eq (tokens : List Token) :
    outcome (items context read tokens) =
      match after? .bracketClose tokens with
      | some rest => .ok ([], rest)
      | none => (itemOrHole read tokens).bind fun found =>
          match after? .comma found.2 with
          | some rest => (outcome (items context read rest)).map fun more =>
              (found.1 :: more.1, more.2)
          | none => (expect context .bracketClose found.2).map fun rest => ([found.1], rest) := by
  rw [outcome_items, itemOrHole]
  cases after? .bracketClose tokens with
  | some rest => rfl
  | none =>
      cases comma : after? .comma tokens with
      | some rest =>
          simp only [Except.bind, comma]
      | none =>
          simp only
          cases outcome (read tokens) <;> rfl

variable {read} in
theorem length_le_of_itemOrHole {tokens rest : List Token} {item : Option Expr}
    (found : itemOrHole read tokens = .ok (item, rest)) : rest.length ≤ tokens.length := by
  unfold itemOrHole at found
  split at found
  · cases found
    exact Nat.le_refl _
  · cases inner : outcome (read tokens) with
    | error failure =>
        rw [inner] at found
        cases found
    | ok first =>
        rw [inner] at found
        cases found
        exact Nat.le_of_lt (length_lt_of_outcome inner)

theorem readsList_items : ReadsList context .bracketClose (itemOrHole read)
    fun tokens => outcome (items context read tokens) where
  equation := outcome_items_eq context read
  shorter _ _ _ found := length_le_of_itemOrHole found

theorem readsList_fields : ReadsList context .braceClose
    (fun tokens => outcome (field context read tokens))
    fun tokens => outcome (fields context read tokens) where
  equation := outcome_fields context read
  shorter _ _ _ found := Nat.le_of_lt (length_lt_of_outcome found)

end

/-- A list with commas and a closing mark, read item by item. -/
theorem keeps_separated {ι : Type} {good : Lexeme → Prop} {means : ι → Prop} {context : Context}
    {closing : Mark} {each : List Token → Except Failure (ι × List Token)}
    {all : List Token → Except Failure (List ι × List Token)}
    (lists : ReadsList context closing each all)
    (keeps : ∀ tokens, Throughout good tokens → Keeps good means (each tokens))
    {tokens : List Token} (fine : Throughout good tokens) :
    Keeps good (fun items => ∀ item ∈ items, means item) (all tokens) := by
  induction length : tokens.length using Nat.strongRecOn generalizing tokens with
  | ind count induction =>
      rw [lists.equation]
      split
      · rename_i rest closed
        refine keeps_ok (fun item member => ?_) (fine.after? closed)
        cases member
      · cases found : each tokens with
        | error failure => exact keeps_error failure
        | ok found' =>
            rcases found' with ⟨item, behind⟩
            rcases keeps tokens fine item behind found with ⟨meant, later⟩
            have bound := lists.shorter tokens item behind found
            change Keeps _ _ (behindItem context closing all item behind)
            unfold behindItem
            split
            · rename_i rest comma
              have fewer := length_lt_of_after? comma
              refine (induction rest.length (by omega) (later.after? comma) rfl).map
                fun items inside other member => ?_
              rcases List.mem_cons.mp member with rfl | inner
              · exact meant
              · exact inside other inner
            · refine keeps_expect_map context later fun other member => ?_
              exact List.mem_singleton.mp member ▸ meant

section

variable {good : Lexeme → Prop} {means : Expr → Prop} (context : Context) {read : Of Expr}
  (keeps : ∀ tokens, Throughout good tokens → Keeps good means (outcome (read tokens)))

include keeps

theorem keeps_arguments {tokens : List Token} (fine : Throughout good tokens) :
    Keeps good (fun given => ∀ argument ∈ given, means argument)
      (outcome (arguments context read tokens)) :=
  keeps_separated (readsList_arguments context read) keeps fine

theorem keeps_items {tokens : List Token} (fine : Throughout good tokens) :
    Keeps good (fun items => ∀ item ∈ items, ∀ expr, item = some expr → means expr)
      (outcome (items context read tokens)) := by
  refine keeps_separated (readsList_items context read) (fun tokens fine => ?_) fine
  unfold itemOrHole
  split
  · refine keeps_ok (fun expr equal => ?_) fine
    cases equal
  · refine (keeps tokens fine).map fun first meant expr equal => ?_
    cases equal
    exact meant

def FieldMeans (means : Expr → Prop) (field : String × Expr) : Prop :=
  (∃ position label, field.2 = .name position label) ∨ means field.2

theorem keeps_keyed (key : String) {tokens : List Token} (fine : Throughout good tokens) :
    Keeps good (FieldMeans means) (outcome (keyed context read key tokens)) := by
  rw [outcome_keyed]
  exact keeps_expect_bind context fine fun rest later =>
    (keeps rest later).map fun value meant => .inr meant

theorem keeps_field {tokens : List Token} (fine : Throughout good tokens) :
    Keeps good (FieldMeans means) (outcome (field context read tokens)) := by
  cases tokens with
  | nil => exact keeps_error _
  | cons token rest =>
      rw [outcome_field]
      split
      · split
        · exact keeps_keyed context keeps _ fine.tail
        · exact keeps_ok (.inl ⟨_, _, rfl⟩) fine.tail
      · exact keeps_keyed context keeps _ fine.tail
      · exact keeps_keyed context keeps _ fine.tail
      · exact keeps_error _

theorem keeps_fields {tokens : List Token} (fine : Throughout good tokens) :
    Keeps good (fun fields => ∀ field ∈ fields, FieldMeans means field)
      (outcome (fields context read tokens)) :=
  keeps_separated (readsList_fields context read) (fun _ fine => keeps_field context keeps fine) fine

end

/-! ## Expressions -/

def literal? : Lexeme → Option Literal
  | .number written => some (.number written)
  | .string text => some (.string text)
  | .regex source options => some (.regex source options)
  | .word label => keyword? label
  | .mark _ => none

/-- Properties that every way of putting expressions together keeps: `whole` of an
expression that is read with some room, and `partly` of one whose suffixes are read in
turn, with the room of the expression and what remains of it. -/
structure Invariant (good : Lexeme → Prop) (whole : Nat → Expr → Prop)
    (partly : Nat → Nat → Expr → Prop) : Prop where
  literal : ∀ room position lexeme literal, good lexeme → literal? lexeme = some literal →
    partly room room (.literal position literal)
  name : ∀ room position label, partly room room (.name position label)
  group : ∀ room expr, whole room expr → partly room room expr
  array : ∀ room position items, (∀ item ∈ items, ∀ expr, item = some expr → whole room expr) →
    partly (room + 1) (room + 1) (.array position items)
  object : ∀ room position fields, (∀ field ∈ fields, FieldMeans (whole room) field) →
    partly (room + 1) (room + 1) (.object position fields)
  signed : ∀ room position sign operand, whole room operand →
    whole (room + 1) (.signed position sign operand)
  member : ∀ room left position owner label, partly room (left + 1) owner →
    partly room left (.member position owner label)
  index : ∀ room left position owner key, partly room (left + 1) owner → whole left key →
    partly room left (.index position owner key)
  call : ∀ room left position owner given, partly room (left + 1) owner →
    (∀ argument ∈ given, whole left argument) → partly room left (.call position owner given)
  new : ∀ room left position callee given, partly room left callee →
    (∀ argument ∈ given, whole left argument) → partly room room (.new position callee given)
  expression : ∀ room left expr, partly room left expr → whole (room + 1) expr

section

variable {good : Lexeme → Prop} {whole : Nat → Expr → Prop} {partly : Nat → Nat → Expr → Prop}
  (invariant : Invariant good whole partly) (context : Context)

def ReadsWhole (good : Lexeme → Prop) (whole : Nat → Expr → Prop) (context : Context)
    (room : Nat) : Prop :=
  ∀ tokens, Throughout good tokens → Keeps good (whole room) (outcome (expression context room tokens))

include invariant

theorem keeps_suffixes {limit room : Nat}
    (reads : ∀ less < room, ReadsWhole good whole context less) {owner : Expr}
    {tokens : List Token} (start : partly limit room owner) (fine : Throughout good tokens) :
    Keeps good (fun expr => ∃ left, partly limit left expr)
      (outcome (suffixes context room owner tokens)) := by
  induction room generalizing owner tokens with
  | zero =>
      rw [outcome_suffixes_zero]
      split
      · exact keeps_error _
      · exact keeps_ok ⟨0, start⟩ fine
  | succ room induction =>
      have inner := reads room (Nat.lt_succ_self room)
      have onward {owner : Expr} {tokens : List Token} (start : partly limit room owner)
          (fine : Throughout good tokens) :=
        induction (fun less bound => reads less (Nat.lt_succ_of_lt bound)) start fine
      cases tokens with
      | nil =>
          rw [outcome_suffixes_nil]
          exact keeps_ok ⟨room + 1, start⟩ fine
      | cons token rest =>
          rw [outcome_suffixes]
          split
          · refine (keeps_expectWord context fine.tail).bind fun label behind _ later => ?_
            exact onward (invariant.member _ _ _ _ _ start) later
          · refine (inner rest fine.tail).bind fun key behind meant later => ?_
            refine keeps_expect_bind context later fun closed last => ?_
            exact onward (invariant.index _ _ _ _ _ start meant) last
          · refine (keeps_arguments context inner fine.tail).bind fun given behind meant later => ?_
            exact onward (invariant.call _ _ _ _ _ start meant) later
          · exact keeps_ok ⟨room + 1, start⟩ fine

theorem keeps_path {limit room : Nat} (reads : ∀ less < room, ReadsWhole good whole context less)
    (position : Position) {callee : Expr} {tokens : List Token} (start : partly limit room callee)
    (fine : Throughout good tokens) :
    Keeps good (partly limit limit) (outcome (path context room position callee tokens)) := by
  have none {left : Nat} {callee : Expr} (start : partly limit left callee) :
      partly limit limit (.new position callee []) :=
    invariant.new _ _ _ _ _ start fun argument member => by cases member
  induction room generalizing callee tokens with
  | zero =>
      rw [outcome_path_zero]
      split
      · exact keeps_error _
      · exact keeps_ok (none start) fine
  | succ room induction =>
      have inner := reads room (Nat.lt_succ_self room)
      rw [outcome_path]
      split
      · exact keeps_ok (none start) fine
      · rename_i rest dotted
        refine (keeps_expectWord context (fine.after? dotted)).bind fun label behind _ later => ?_
        have longer := invariant.member limit room (context.position tokens) callee label start
        dsimp only
        split
        · rename_i inside opened
          refine (keeps_arguments context inner (later.after? opened)).map fun given meant => ?_
          exact invariant.new _ _ _ _ _ longer meant
        · exact induction (fun less bound => reads less (Nat.lt_succ_of_lt bound)) longer later

theorem keeps_construction {room : Nat}
    (reads : ∀ less < room + 1, ReadsWhole good whole context less) (position : Position)
    {tokens : List Token} (fine : Throughout good tokens) :
    Keeps good (partly room room) (outcome (construction context room position tokens)) := by
  rw [outcome_construction]
  refine (keeps_expectWord context fine).bind fun label behind _ later => ?_
  have callee := invariant.name room (context.position tokens) label
  dsimp only
  split
  · rename_i inside opened
    have inner := reads room (Nat.lt_succ_self room)
    refine (keeps_arguments context inner (later.after? opened)).map fun given meant => ?_
    exact invariant.new _ _ _ _ _ callee meant
  · exact keeps_path invariant context (fun less bound => reads less (Nat.lt_succ_of_lt bound))
      position callee later

theorem keeps_primary {room : Nat} (reads : ∀ less < room + 1, ReadsWhole good whole context less)
    {token : Token} {rest : List Token} (fine : Throughout good (token :: rest)) :
    Keeps good (partly room room) (outcome (primary context (expression context room)
      (nested context room) (construction context room) (token :: rest))) := by
  have literal {lexeme : Lexeme} {literal : Literal} (equal : token.lexeme = lexeme)
      (found : literal? lexeme = some literal) :
      partly room room (.literal token.position literal) :=
    invariant.literal _ _ _ _ (equal ▸ fine.head) found
  rw [outcome_primary]
  split
  · exact keeps_ok (literal ‹_› rfl) fine.tail
  · exact keeps_ok (literal ‹_› rfl) fine.tail
  · exact keeps_ok (literal ‹_› rfl) fine.tail
  · split
    · exact keeps_ok (literal ‹_› ‹_›) fine.tail
    split
    · exact keeps_construction invariant context reads _ fine.tail
    · exact keeps_ok (invariant.name _ _ _) fine.tail
  · refine (reads room (Nat.lt_succ_self room) rest fine.tail).bind fun inner behind meant later => ?_
    exact keeps_expect_map context later (invariant.group _ _ meant)
  · cases room with
    | zero => exact keeps_error _
    | succ room =>
        have inner := reads room (Nat.lt_succ_of_lt (Nat.lt_succ_self room))
        exact (keeps_items context inner fine.tail).map fun items meant =>
          invariant.array _ _ _ meant
  · cases room with
    | zero => exact keeps_error _
    | succ room =>
        have inner := reads room (Nat.lt_succ_of_lt (Nat.lt_succ_self room))
        exact (keeps_fields context inner fine.tail).map fun fields meant =>
          invariant.object _ _ _ meant
  · exact keeps_error _

theorem keeps_expression (room : Nat) : ReadsWhole good whole context room := by
  induction room using Nat.strongRecOn with
  | ind room reads =>
      intro tokens fine
      cases room with
      | zero =>
          rw [outcome_expression_zero]
          exact keeps_error _
      | succ room =>
          cases tokens with
          | nil =>
              rw [outcome_expression_nil]
              exact keeps_error _
          | cons token rest =>
              rw [outcome_expression]
              split
              · refine (reads room (Nat.lt_succ_self room) rest fine.tail).map fun operand meant => ?_
                exact invariant.signed _ _ _ _ meant
              · refine (keeps_primary invariant context reads fine).bind
                  fun start behind meant later => ?_
                refine (keeps_suffixes invariant context
                  (fun less bound => reads less (Nat.lt_succ_of_lt bound)) meant later).imp ?_
                rintro expr ⟨left, meant⟩
                exact invariant.expression _ _ _ meant

/-- What holds of all tokens, and is kept, holds of the expression of a whole text. -/
theorem whole_of_ofTokens {limit : Nat} {tokens : List Token} {finish : Position} {expr : Expr}
    (found : Expr.ofTokens limit tokens finish = .ok (some expr))
    (fine : Throughout good tokens) : whole limit expr := by
  have skipped : Throughout good (Expr.skipSemicolons tokens) := fun token member =>
    fine token ((List.dropWhile_suffix _).subset member)
  have reads := keeps_expression invariant ⟨limit, finish⟩ limit _ skipped
  rw [Expr.ofTokens_eq] at found
  split at found
  · cases found
  · rcases bind_eq_ok.mp found with ⟨⟨read, behind⟩, outcome, last⟩
    dsimp only at last
    split at last
    · cases last
      exact (reads _ _ outcome).1
    · cases last

end

end DocShell.Reader
