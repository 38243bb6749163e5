import DocShell.Proofs.Expr.Grammar

namespace DocShell.Grammar

open Reader

/-! # What the grammar derives is read -/

/-- With the given room, the reader finds what a form of no more levels derives, in front of
anything that settles it. -/
structure Read (context : Context) (room : Nat) (form : Form Expr) : Prop where
  begins : ∀ levels tokens expr, form levels tokens expr → Begins tokens
  reads : ∀ levels tokens expr, form levels tokens expr → levels ≤ room →
    ∀ rest, Settled rest → outcome (expression context room (tokens ++ rest)) = .ok (expr, rest)

def ReadBefore {ι : Type} (form : Form ι) (room : Nat) (closing mark : Mark)
    (read : List Token → Except Failure (ι × List Token)) : Prop :=
  ∀ levels tokens item, form levels tokens item → levels ≤ room →
    ∀ behind rest, behind.lexeme = .mark mark →
      after? closing (tokens ++ behind :: rest) = none ∧
        read (tokens ++ behind :: rest) = .ok (item, behind :: rest)

theorem bracketed_append (opening closing : Token) (inner behind rest : List Token) :
    opening :: (inner ++ closing :: behind) ++ rest =
      opening :: (inner ++ closing :: (behind ++ rest)) := by
  rw [List.cons_append, List.append_assoc, List.cons_append]

section

variable {context : Context} {room : Nat} {form : Form Expr}

theorem after?_of_begins {closing : Mark} {tokens : List Token} (begins : Begins tokens)
    (closes : Lexeme.mark closing ∈ stops) : after? closing tokens = none := by
  rcases begins with ⟨first, more, rfl, noStop⟩
  refine after?_of_ne (fun equal => ?_) more
  exact noStop (equal ▸ closes)

theorem settled_of_mem_stops {token : Token} (stop : token.lexeme ∈ stops) (rest : List Token) :
    Settled (token :: rest) := by
  refine settled_cons ?_
  simp only [stops, List.mem_cons, List.not_mem_nil, or_false] at stop
  rcases stop with equal | equal | equal | equal | equal <;> rw [equal] <;> decide

theorem outcome_listed {ι : Type} {each last : Form ι} {closing : Mark}
    {read : List Token → Except Failure (ι × List Token)}
    {all : List Token → Except Failure (List ι × List Token)}
    (lists : ReadsList context closing read all)
    (noComma : closing ≠ .comma) (eachRead : ReadBefore each room closing .comma read)
    (lastRead : ReadBefore last room closing closing read) {levels : Nat} {tokens : List Token}
    {items : List ι} (listed : Listed each last levels tokens items) (fits : levels ≤ room)
    {closed : Token} (closes : closed.lexeme = .mark closing) (rest : List Token) :
    all (tokens ++ closed :: rest) = .ok (items, rest) := by
  have noMark : closed.lexeme ≠ .mark .comma := by
    rw [closes]
    simpa using noComma
  induction listed with
  | nil => rw [List.nil_append, lists.equation, after?_of_eq closes]
  | last only =>
      rcases lastRead _ _ _ only fits closed rest closes with ⟨goesOn, found⟩
      rw [lists.equation, goesOn]
      simp only [found, Except.bind, behindItem, after?_of_ne noMark, expect, after?_of_eq closes]
      rfl
  | cons first mark others induction =>
      rcases Nat.max_le.mp fits with ⟨front, back⟩
      rcases eachRead _ _ _ first front _ (_ ++ closed :: rest) mark with ⟨goesOn, found⟩
      rw [List.append_assoc, List.cons_append, lists.equation, goesOn]
      simp only [found, Except.bind, behindItem, after?_of_eq mark, induction back]
      rfl

variable (read : Read context room form)

include read

theorem Read.reads_mark {levels : Nat} {tokens : List Token} {expr : Expr}
    (derived : form levels tokens expr) (fits : levels ≤ room) {closed : Token} {mark : Mark}
    (closes : closed.lexeme = .mark mark) (stop : Lexeme.mark mark ∈ stops) (rest : List Token) :
    outcome (expression context room (tokens ++ closed :: rest)) = .ok (expr, closed :: rest) :=
  read.reads _ _ _ derived fits _ (settled_of_mem_stops (closes ▸ stop) rest)

theorem Read.before (closing : Mark) (closes : Lexeme.mark closing ∈ stops) (mark : Mark)
    (stop : Lexeme.mark mark ∈ stops) :
    ReadBefore form room closing mark fun tokens => outcome (expression context room tokens) := by
  intro levels tokens expr derived fits behind rest equal
  exact ⟨after?_of_begins ((read.begins _ _ _ derived).append _) closes,
    read.reads_mark derived fits equal stop rest⟩

theorem Read.arguments {levels : Nat} {tokens : List Token} {given : List Expr}
    (listed : Listed form form levels tokens given) (fits : levels ≤ room) {closed : Token}
    (closes : closed.lexeme = .mark .parenClose) (rest : List Token) :
    outcome (arguments context (expression context room) (tokens ++ closed :: rest)) =
      .ok (given, rest) := by
  refine outcome_listed (readsList_arguments context _) (by decide) ?_ ?_ listed fits closes rest
  · exact read.before _ (by decide) _ (by decide)
  · exact read.before _ (by decide) _ (by decide)

theorem Read.item (mark : Mark) (stop : Lexeme.mark mark ∈ stops) :
    ReadBefore (Item form) room .bracketClose mark (itemOrHole (expression context room)) := by
  intro levels tokens item derived fits behind rest equal
  cases derived with
  | present inner =>
      have begins := (read.begins _ _ _ inner).append (behind :: rest)
      refine ⟨after?_of_begins begins (by decide), ?_⟩
      rw [itemOrHole, after?_of_begins begins (by decide),
        read.reads_mark inner fits equal stop rest]
      rfl

theorem Read.itemOrHole : ReadBefore (ItemOrHole form) room .bracketClose .comma
    (itemOrHole (expression context room)) := by
  intro levels tokens item derived fits behind rest equal
  cases derived with
  | hole =>
      refine ⟨after?_of_ne (by simp [equal]) rest, ?_⟩
      rw [List.nil_append, Reader.itemOrHole, after?_of_eq equal]
  | item inner => exact read.item .comma (by decide) _ _ _ inner fits behind rest equal

theorem Read.items {levels : Nat} {tokens : List Token} {items : List (Option Expr)}
    (listed : Listed (ItemOrHole form) (Item form) levels tokens items) (fits : levels ≤ room)
    {closed : Token} (closes : closed.lexeme = .mark .bracketClose) (rest : List Token) :
    outcome (Reader.items context (expression context room) (tokens ++ closed :: rest)) =
      .ok (items, rest) :=
  outcome_listed (readsList_items context _) (by decide) read.itemOrHole
    (read.item .bracketClose (by decide)) listed fits closes rest

omit read in
theorem ne_mark_of_key? {lexeme : Lexeme} {key : String} (spelled : key? lexeme = some key)
    (mark : Mark) : lexeme ≠ .mark mark := by
  rintro rfl
  cases spelled

omit read in
/-- However its key is spelled, a field with a colon is read in one way. -/
theorem outcome_field_of_key? (read : Of Expr) {token colon : Token} {key : String}
    (spelled : key? token.lexeme = some key) (mark : colon.lexeme = .mark .colon)
    (rest : List Token) :
    outcome (field context read (token :: colon :: rest)) =
      (outcome (read rest)).map fun found => ((key, found.1), found.2) := by
  cases lexeme : token.lexeme with
  | mark sign => exact absurd lexeme (ne_mark_of_key? spelled sign)
  | word label =>
      rw [lexeme] at spelled
      cases spelled
      exact outcome_field_keyed context read (.inl lexeme) mark rest
  | string text =>
      rw [lexeme] at spelled
      cases spelled
      exact outcome_field_keyed context read (.inr lexeme) mark rest
  | number written =>
      rw [lexeme] at spelled
      cases spelled
      rw [outcome_field, lexeme]
      exact outcome_keyed_colon context read _ mark rest
  | regex source options =>
      rw [lexeme] at spelled
      cases spelled

theorem Read.field (mark : Mark) (stop : Lexeme.mark mark ∈ stops) (noColon : mark ≠ .colon) :
    ReadBefore (Field form) room .braceClose mark fun tokens =>
      outcome (field context (expression context room) tokens) := by
  intro levels tokens field derived fits behind rest equal
  cases derived with
  | @shorthand token label word =>
      refine ⟨after?_of_ne (by simp [word]) _, ?_⟩
      have alone : after? .colon (behind :: rest) = none :=
        after?_of_ne (by simpa [equal] using noColon) rest
      simp only [List.singleton_append, outcome_field, word, alone]
      rfl
  | keyed spelled colonMark inner =>
      have found := read.reads_mark inner fits equal stop rest
      refine ⟨after?_of_ne (ne_mark_of_key? spelled _) _, ?_⟩
      exact (outcome_field_of_key? _ spelled colonMark _).trans (congrArg (Except.map _) found)

theorem Read.fields {levels : Nat} {tokens : List Token} {fields : List (String × Expr)}
    (listed : Listed (Field form) (Field form) levels tokens fields) (fits : levels ≤ room)
    {closed : Token} (closes : closed.lexeme = .mark .braceClose) (rest : List Token) :
    outcome (Reader.fields context (expression context room) (tokens ++ closed :: rest)) =
      .ok (fields, rest) := by
  refine outcome_listed (readsList_fields context _) (by decide) ?_ ?_ listed fits closes rest
  · exact read.field _ (by decide) (by decide)
  · exact read.field _ (by decide) (by decide)

end

/-! ## Suffixes and paths -/

section

variable {context : Context} {room : Nat} {form : Form Expr}
  (read : ∀ less < room, Read context less form)

include read

theorem outcome_suffixes_of_derived {levels : Nat} {owner whole : Expr} {tokens : List Token}
    (suffixes : Suffixes form levels owner tokens whole) (fits : levels ≤ room)
    {rest : List Token} (settled : Settled rest) :
    outcome (Reader.suffixes context room owner (tokens ++ rest)) = .ok (whole, rest) := by
  induction suffixes generalizing room with
  | nil => exact outcome_suffixes_settled context room _ settled
  | member mark word later induction =>
      cases room with
      | zero => exact absurd fits (Nat.not_succ_le_zero _)
      | succ room =>
          have onward := induction (fun less bound => read less (Nat.lt_succ_of_lt bound))
            (Nat.le_of_succ_le_succ fits)
          rw [List.cons_append, List.cons_append, outcome_suffixes]
          simp only [mark, expectWord, word, Except.bind, onward]
  | index opens inner closes later induction =>
      cases room with
      | zero => exact absurd fits (Nat.not_succ_le_zero _)
      | succ room =>
          rcases Nat.max_le.mp (Nat.le_of_succ_le_succ fits) with ⟨inside, behind⟩
          have onward := induction (fun less bound => read less (Nat.lt_succ_of_lt bound)) behind
          have key := (read room (Nat.lt_succ_self room)).reads_mark inner inside closes (by decide)
          rw [bracketed_append, outcome_suffixes]
          simp only [opens, key, expect, after?_of_eq closes, Except.bind, onward]
  | call opens inner closes later induction =>
      cases room with
      | zero => exact absurd fits (Nat.not_succ_le_zero _)
      | succ room =>
          rcases Nat.max_le.mp (Nat.le_of_succ_le_succ fits) with ⟨inside, behind⟩
          have onward := induction (fun less bound => read less (Nat.lt_succ_of_lt bound)) behind
          have given := (read room (Nat.lt_succ_self room)).arguments inner inside closes
          rw [bracketed_append, outcome_suffixes]
          simp only [opens, given, Except.bind, onward]

end

def pathBehindName (context : Context) (room : Nat) (start : Position) (callee : Expr)
    (tokens : List Token) : Except Failure (Expr × List Token) :=
  match after? .parenOpen tokens with
  | some inside => (outcome (arguments context (expression context room) inside)).map
      fun found => (.new start callee found.1, found.2)
  | none => outcome (path context room start callee tokens)

section

variable {context : Context} {room : Nat} {form : Form Expr}

theorem outcome_construction_word {name : Token} {label : String} (word : name.lexeme = .word label)
    (start : Position) (rest : List Token) :
    outcome (construction context room start (name :: rest)) =
      pathBehindName context room start (.name name.position label) rest := by
  rw [outcome_construction]
  simp only [expectWord, word]
  rfl

theorem outcome_path_member {dot name : Token} {label : String} (mark : dot.lexeme = .mark .dot)
    (word : name.lexeme = .word label) (start : Position) (callee : Expr) (rest : List Token) :
    outcome (path context (room + 1) start callee (dot :: name :: rest)) =
      pathBehindName context room start (.member dot.position callee label) rest := by
  rw [outcome_path, after?_of_eq mark]
  simp only [expectWord, word]
  rfl

theorem Ends.append {behind rest : List Token} (ends : Ends behind) (settled : Settled rest) :
    Ends (behind ++ rest) := by
  cases behind with
  | nil =>
      intro token member
      have other := settled token member
      simp only [List.mem_cons, List.not_mem_nil, or_false, not_or] at other
      exact ⟨other.1, other.2.2⟩
  | cons first more => exact ends

theorem Ends.after? {behind : List Token} (ends : Ends behind) :
    after? .dot behind = none ∧ after? .parenOpen behind = none := by
  cases behind with
  | nil => exact ⟨rfl, rfl⟩
  | cons first more =>
      have other := ends first rfl
      exact ⟨after?_of_ne other.1 more, after?_of_ne other.2 more⟩

theorem pathBehindName_of_ends {behind : List Token} (ends : Ends behind) (start : Position)
    (callee : Expr) :
    pathBehindName context room start callee behind = .ok (.new start callee [], behind) := by
  rw [pathBehindName, ends.after?.2]
  cases room with
  | zero => simp only [outcome_path_zero, ends.after?.1]
  | succ room => simp only [outcome_path, ends.after?.1]

theorem pathBehindName_of_derived (read : ∀ less < room + 1, Read context less form) {levels : Nat}
    {start : Position} {callee whole : Expr} {tokens behind : List Token}
    (path : Path form levels start callee tokens behind whole) (fits : levels ≤ room)
    {rest : List Token} (settled : Settled rest) :
    pathBehindName context room start callee (tokens ++ (behind ++ rest)) =
      .ok (whole, behind ++ rest) := by
  induction path generalizing room with
  | bare ends => exact pathBehindName_of_ends (ends.append settled) _ _
  | call opens inner closes =>
      have given := (read room (Nat.lt_succ_self room)).arguments inner fits closes
      rw [bracketed_append, List.nil_append, pathBehindName, after?_of_eq opens]
      simp only [given]
      rfl
  | member mark word later induction =>
      cases room with
      | zero => exact absurd fits (Nat.not_succ_le_zero _)
      | succ room =>
          rw [List.cons_append, List.cons_append, pathBehindName,
            after?_of_ne (by simp [mark])]
          simp only [outcome_path_member mark word]
          exact induction (fun less bound => read less (Nat.lt_succ_of_lt bound))
            (Nat.le_of_succ_le_succ fits)

/-! ## Expressions -/

theorem outcome_primary_of_derived (read : ∀ less < room + 1, Read context less form)
    {levels : Nat} {tokens behind : List Token} {expr : Expr}
    (derived : Primary form levels tokens behind expr) (fits : levels ≤ room)
    {rest : List Token} (settled : Settled rest) :
    outcome (primary context (expression context room) (nested context room)
      (construction context room) (tokens ++ (behind ++ rest))) = .ok (expr, behind ++ rest) := by
  cases derived with
  | @literal token _ literal reads =>
      rw [List.singleton_append, outcome_primary]
      cases lexeme : token.lexeme <;> rw [lexeme] at reads
      case word label =>
        have keyword : keyword? label = some literal := reads
        simp only [keyword]
      all_goals
        cases reads
      all_goals rfl
  | name word noKeyword noNew =>
      rw [List.singleton_append, outcome_primary, word]
      simp only [noKeyword, if_neg noNew]
  | group opens inside closes =>
      have inner := (read room (Nat.lt_succ_self room)).reads_mark inside fits closes (by decide)
      rw [bracketed_append, List.nil_append, outcome_primary, opens]
      simp only [inner, Except.bind, expect, after?_of_eq closes]
      rfl
  | array opens inside closes =>
      cases room with
      | zero => exact absurd fits (Nat.not_succ_le_zero _)
      | succ room =>
          have inner := (read room (Nat.lt_succ_of_lt (Nat.lt_succ_self room))).items inside
            (Nat.le_of_succ_le_succ fits) closes
          rw [bracketed_append, List.nil_append, outcome_primary, opens]
          simp only [nested, inner]
          rfl
  | object opens inside closes =>
      cases room with
      | zero => exact absurd fits (Nat.not_succ_le_zero _)
      | succ room =>
          have inner := (read room (Nat.lt_succ_of_lt (Nat.lt_succ_self room))).fields inside
            (Nat.le_of_succ_le_succ fits) closes
          rw [bracketed_append, List.nil_append, outcome_primary, opens]
          simp only [nested, inner]
          rfl
  | new new word path =>
      rw [List.cons_append, List.cons_append, outcome_primary, new]
      simp only [show keyword? "new" = none from rfl, if_true, outcome_construction_word word]
      exact pathBehindName_of_derived read path fits settled

theorem sign?_of_primary {levels : Nat} {tokens behind : List Token} {expr : Expr}
    (derived : Primary form levels tokens behind expr) :
    ∃ first more, tokens = first :: more ∧ sign? first.lexeme = none := by
  cases derived with
  | @literal token _ literal reads =>
      refine ⟨_, _, rfl, ?_⟩
      cases lexeme : token.lexeme <;> rw [lexeme] at reads
      case mark => cases reads
      all_goals rfl
  | name word => exact ⟨_, _, rfl, by rw [word]; rfl⟩
  | group opens => exact ⟨_, _, rfl, by rw [opens]; rfl⟩
  | array opens => exact ⟨_, _, rfl, by rw [opens]; rfl⟩
  | object opens => exact ⟨_, _, rfl, by rw [opens]; rfl⟩
  | new new => exact ⟨_, _, rfl, by rw [new]; rfl⟩

end

theorem read_expression (context : Context) (room : Nat) : Read context room Expression := by
  induction room using Nat.strongRecOn with
  | ind room read =>
      refine ⟨fun levels tokens expr => Expression.begins, ?_⟩
      intro levels tokens expr derived fits rest settled
      cases derived with
      | signed reads inner =>
          cases room with
          | zero => exact absurd fits (Nat.not_succ_le_zero _)
          | succ room =>
              have operand := (read room (Nat.lt_succ_self room)).reads _ _ _ inner
                (Nat.le_of_succ_le_succ fits) rest settled
              rw [List.cons_append, outcome_expression, reads]
              simp only [operand]
              rfl
      | chain primary suffixes =>
          cases room with
          | zero => exact absurd fits (Nat.not_succ_le_zero _)
          | succ room =>
              rcases Nat.max_le.mp (Nat.le_of_succ_le_succ fits) with ⟨front, back⟩
              have start := outcome_primary_of_derived read primary front settled
              have whole := outcome_suffixes_of_derived
                (fun less bound => read less (Nat.lt_succ_of_lt bound)) suffixes back settled
              rcases sign?_of_primary primary with ⟨first, more, rfl, noSign⟩
              rw [List.append_assoc, List.cons_append, outcome_expression, noSign]
              rw [List.cons_append] at start
              simp only [start, Except.bind, whole]

end DocShell.Grammar
