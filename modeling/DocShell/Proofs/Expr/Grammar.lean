import DocShell.Proofs.Expr.Invariant
import DocShell.Proofs.Expr.Phrase

namespace DocShell.Grammar

/-! # The grammar of expressions

Which tokens an expression consists of, and what they stand for, said without a reader.
Every form of the grammar also counts the levels that its tokens nest: an expression, an
array, an object, a suffix and a step of the path behind `new` are one level each, and what
stands side by side shares its levels. -/

/-- A relation between levels, tokens, and what the tokens stand for. -/
abbrev Form (ι : Type) := Nat → List Token → ι → Prop

/-- Items with commas between them. Another comma may follow the last item, and what may
stand there without a comma can differ from what may stand before one. -/
inductive Listed {ι : Type} (each last : Form ι) : Form (List ι)
  | nil : Listed each last 0 [] []
  | last {levels : Nat} {tokens : List Token} {item : ι} (only : last levels tokens item) :
      Listed each last levels tokens [item]
  | cons {levels more : Nat} {front back : List Token} {comma : Token} {item : ι} {items : List ι}
      (first : each levels front item) (mark : comma.lexeme = .mark .comma)
      (others : Listed each last more back items) :
      Listed each last (max levels more) (front ++ comma :: back) (item :: items)

/-! The parts of an expression are given for any form of the expressions inside them. -/

section

variable (expression : Form Expr)

inductive Item : Form (Option Expr)
  | present {levels : Nat} {tokens : List Token} {expr : Expr}
      (inner : expression levels tokens expr) : Item levels tokens (some expr)

/-- What may stand before a comma in an array: an item, or nothing, which is a hole. -/
inductive ItemOrHole : Form (Option Expr)
  | hole : ItemOrHole 0 [] none
  | item {levels : Nat} {tokens : List Token} {item : Option Expr}
      (inner : Item expression levels tokens item) : ItemOrHole levels tokens item

def key? : Lexeme → Option String
  | .word label => some label
  | .string text => some text
  | .number written => some (String.ofList written.value.shellText)
  | _ => none

/-- A field of an object. A word alone has the binding of that name as its value. -/
inductive Field : Form (String × Expr)
  | shorthand {token : Token} {label : String} (word : token.lexeme = .word label) :
      Field 0 [token] (label, .name token.position label)
  | keyed {levels : Nat} {token colon : Token} {tokens : List Token} {key : String} {value : Expr}
      (spelled : key? token.lexeme = some key) (mark : colon.lexeme = .mark .colon)
      (inner : expression levels tokens value) :
      Field levels (token :: colon :: tokens) (key, value)

inductive Suffixes : Nat → Expr → List Token → Expr → Prop
  | nil {owner : Expr} : Suffixes 0 owner [] owner
  | member {levels : Nat} {dot name : Token} {label : String} {rest : List Token}
      {owner whole : Expr} (mark : dot.lexeme = .mark .dot) (word : name.lexeme = .word label)
      (later : Suffixes levels (.member dot.position owner label) rest whole) :
      Suffixes (levels + 1) owner (dot :: name :: rest) whole
  | index {inside levels : Nat} {opening closing : Token} {tokens rest : List Token}
      {owner key whole : Expr} (opens : opening.lexeme = .mark .bracketOpen)
      (inner : expression inside tokens key) (closes : closing.lexeme = .mark .bracketClose)
      (later : Suffixes levels (.index opening.position owner key) rest whole) :
      Suffixes (max inside levels + 1) owner (opening :: (tokens ++ closing :: rest)) whole
  | call {inside levels : Nat} {opening closing : Token} {tokens rest : List Token}
      {owner whole : Expr} {given : List Expr} (opens : opening.lexeme = .mark .parenOpen)
      (inner : Listed expression expression inside tokens given)
      (closes : closing.lexeme = .mark .parenClose)
      (later : Suffixes levels (.call opening.position owner given) rest whole) :
      Suffixes (max inside levels + 1) owner (opening :: (tokens ++ closing :: rest)) whole

/-- Tokens that go on neither with a step of a path nor with arguments. -/
def Ends (behind : List Token) : Prop :=
  ∀ token ∈ behind.head?, token.lexeme ≠ .mark .dot ∧ token.lexeme ≠ .mark .parenOpen

/-- What follows `new` and a first name: the longest path, and arguments if they come
next. The tokens behind are given because they show that a path ends. -/
inductive Path : Nat → Position → Expr → List Token → List Token → Expr → Prop
  | bare {start : Position} {callee : Expr} {behind : List Token} (ends : Ends behind) :
      Path 0 start callee [] behind (.new start callee [])
  | call {levels : Nat} {start : Position} {opening closing : Token} {tokens behind : List Token}
      {callee : Expr} {given : List Expr} (opens : opening.lexeme = .mark .parenOpen)
      (inner : Listed expression expression levels tokens given)
      (closes : closing.lexeme = .mark .parenClose) :
      Path levels start callee (opening :: (tokens ++ [closing])) behind (.new start callee given)
  | member {levels : Nat} {start : Position} {dot name : Token} {label : String}
      {rest behind : List Token} {callee whole : Expr} (mark : dot.lexeme = .mark .dot)
      (word : name.lexeme = .word label)
      (later : Path levels start (.member dot.position callee label) rest behind whole) :
      Path (levels + 1) start callee (dot :: name :: rest) behind whole

/-- An expression without suffixes, before the given tokens. Parentheses leave no node. -/
inductive Primary : Nat → List Token → List Token → Expr → Prop
  | literal {token : Token} {behind : List Token} {literal : Literal}
      (reads : Reader.literal? token.lexeme = some literal) :
      Primary 0 [token] behind (.literal token.position literal)
  | name {token : Token} {behind : List Token} {label : String} (word : token.lexeme = .word label)
      (noKeyword : Reader.keyword? label = none) (noNew : label ≠ "new") :
      Primary 0 [token] behind (.name token.position label)
  | group {levels : Nat} {opening closing : Token} {tokens behind : List Token} {inner : Expr}
      (opens : opening.lexeme = .mark .parenOpen) (inside : expression levels tokens inner)
      (closes : closing.lexeme = .mark .parenClose) :
      Primary levels (opening :: (tokens ++ [closing])) behind inner
  | array {levels : Nat} {opening closing : Token} {tokens behind : List Token}
      {items : List (Option Expr)} (opens : opening.lexeme = .mark .bracketOpen)
      (inside : Listed (ItemOrHole expression) (Item expression) levels tokens items)
      (closes : closing.lexeme = .mark .bracketClose) :
      Primary (levels + 1) (opening :: (tokens ++ [closing])) behind (.array opening.position items)
  | object {levels : Nat} {opening closing : Token} {tokens behind : List Token}
      {fields : List (String × Expr)} (opens : opening.lexeme = .mark .braceOpen)
      (inside : Listed (Field expression) (Field expression) levels tokens fields)
      (closes : closing.lexeme = .mark .braceClose) :
      Primary (levels + 1) (opening :: (tokens ++ [closing])) behind (.object opening.position fields)
  | new {levels : Nat} {token name : Token} {tokens behind : List Token} {label : String}
      {whole : Expr} (new : token.lexeme = .word "new") (word : name.lexeme = .word label)
      (path : Path expression levels token.position (.name name.position label) tokens behind whole) :
      Primary levels (token :: name :: tokens) behind whole

end

inductive Expression : Form Expr
  | signed {levels : Nat} {token : Token} {tokens : List Token} {sign : Sign} {operand : Expr}
      (reads : Reader.sign? token.lexeme = some sign) (inner : Expression levels tokens operand) :
      Expression (levels + 1) (token :: tokens) (.signed token.position sign operand)
  | chain {first later : Nat} {front back : List Token} {start whole : Expr}
      (primary : Primary Expression first front back start)
      (suffixes : Suffixes Expression later start back whole) :
      Expression (max first later + 1) (front ++ back) whole

/-- A whole text: at most one expression, with any semicolons before and behind it. -/
inductive Program : Form (Option Expr)
  | nothing {tokens : List Token} (semicolons : ∀ token ∈ tokens, token.lexeme = .mark .semicolon) :
      Program 0 tokens none
  | expression {levels : Nat} {before tokens behind : List Token} {expr : Expr}
      (leading : ∀ token ∈ before, token.lexeme = .mark .semicolon)
      (inner : Expression levels tokens expr)
      (trailing : ∀ token ∈ behind, token.lexeme = .mark .semicolon) :
      Program levels (before ++ tokens ++ behind) (some expr)

/-! ## First tokens -/

def Begins (tokens : List Token) : Prop :=
  ∃ first more, tokens = first :: more ∧ first.lexeme ∉ Reader.stops

theorem Begins.append {tokens : List Token} (begins : Begins tokens) (behind : List Token) :
    Begins (tokens ++ behind) := by
  rcases begins with ⟨first, more, rfl, noStop⟩
  exact ⟨first, more ++ behind, rfl, noStop⟩

theorem not_mem_stops_of_literal? {lexeme : Lexeme} {literal : Literal}
    (reads : Reader.literal? lexeme = some literal) : lexeme ∉ Reader.stops := by
  cases lexeme <;> simp [Reader.stops, Reader.literal?] at *

theorem not_mem_stops_of_sign? {lexeme : Lexeme} {sign : Sign}
    (reads : Reader.sign? lexeme = some sign) : lexeme ∉ Reader.stops := by
  intro stop
  simp only [Reader.stops, List.mem_cons, List.not_mem_nil, or_false] at stop
  rcases stop with rfl | rfl | rfl | rfl | rfl <;> cases reads

theorem Primary.begins {form : Form Expr} {levels : Nat} {tokens behind : List Token} {expr : Expr}
    (primary : Primary form levels tokens behind expr) : Begins tokens := by
  cases primary with
  | literal reads => exact ⟨_, _, rfl, not_mem_stops_of_literal? reads⟩
  | name word => exact ⟨_, _, rfl, by simp [word, Reader.stops]⟩
  | group opens => exact ⟨_, _, rfl, by simp [opens, Reader.stops]⟩
  | array opens => exact ⟨_, _, rfl, by simp [opens, Reader.stops]⟩
  | object opens => exact ⟨_, _, rfl, by simp [opens, Reader.stops]⟩
  | new new => exact ⟨_, _, rfl, by simp [new, Reader.stops]⟩

theorem Expression.begins {levels : Nat} {tokens : List Token} {expr : Expr}
    (expression : Expression levels tokens expr) : Begins tokens := by
  cases expression with
  | signed reads => exact ⟨_, _, rfl, not_mem_stops_of_sign? reads⟩
  | chain primary => exact primary.begins.append _

/-! ## Levels

No more levels than tokens. An expression that is one token is one level, and every other
form adds as many tokens as levels at least. -/

/-- A form in which no more than the given levels nest deeper than there are tokens. -/
def Form.Fits {ι : Type} (form : Form ι) (bound : Nat) : Prop :=
  ∀ levels tokens item, form levels tokens item → levels < bound → levels ≤ tokens.length

section

variable {bound levels : Nat} {tokens : List Token}

theorem Listed.levels_le {ι : Type} {each last : Form ι} (eachFits : each.Fits bound)
    (lastFits : last.Fits bound) {items : List ι} (listed : Listed each last levels tokens items)
    (less : levels < bound) : levels ≤ tokens.length := by
  induction listed with
  | nil => exact Nat.le_refl 0
  | last only => exact lastFits _ _ _ only less
  | cons first mark others induction =>
      have front := eachFits _ _ _ first (by omega)
      have back := induction (by omega)
      simp only [List.length_append, List.length_cons]
      omega

variable {form : Form Expr} (fine : form.Fits bound)

include fine

theorem Item.fits : (Item form).Fits bound := by
  intro levels tokens item present less
  cases present with
  | present inner => exact fine _ _ _ inner less

theorem ItemOrHole.fits : (ItemOrHole form).Fits bound := by
  intro levels tokens item itemOrHole less
  cases itemOrHole with
  | hole => exact Nat.le_refl 0
  | item inner => exact Item.fits fine _ _ _ inner less

theorem Field.fits : (Field form).Fits bound := by
  intro levels tokens field fielded less
  cases fielded with
  | shorthand => exact Nat.zero_le _
  | keyed spelled mark inner =>
      have inside := fine _ _ _ inner less
      simp only [List.length_cons]
      omega

theorem Suffixes.levels_le {owner whole : Expr}
    (suffixes : Suffixes form levels owner tokens whole) (less : levels < bound) :
    levels ≤ tokens.length := by
  induction suffixes with
  | nil => exact Nat.le_refl 0
  | member mark word later induction =>
      have behind := induction (by omega)
      simp only [List.length_cons]
      omega
  | index opens inner closes later induction =>
      have inside := fine _ _ _ inner (by omega)
      have behind := induction (by omega)
      simp only [List.length_cons, List.length_append]
      omega
  | call opens inner closes later induction =>
      have inside := inner.levels_le fine fine (by omega)
      have behind := induction (by omega)
      simp only [List.length_cons, List.length_append]
      omega

theorem Path.levels_le {start : Position} {callee whole : Expr} {behind : List Token}
    (path : Path form levels start callee tokens behind whole) (less : levels < bound) :
    levels ≤ tokens.length := by
  induction path with
  | bare => exact Nat.le_refl 0
  | call opens inner closes =>
      have inside := inner.levels_le fine fine less
      simp only [List.length_cons, List.length_append]
      omega
  | member mark word later induction =>
      have onward := induction (by omega)
      simp only [List.length_cons]
      omega

theorem Primary.levels_lt {behind : List Token} {expr : Expr}
    (primary : Primary form levels tokens behind expr) (less : levels < bound) :
    levels < tokens.length := by
  cases primary with
  | literal => exact Nat.one_pos
  | name => exact Nat.one_pos
  | group opens inside =>
      have inner := fine _ _ _ inside less
      simp only [List.length_cons, List.length_append]
      omega
  | array opens inside =>
      have inner := inside.levels_le (ItemOrHole.fits fine) (Item.fits fine) (by omega)
      simp only [List.length_cons, List.length_append]
      omega
  | object opens inside =>
      have inner := inside.levels_le (Field.fits fine) (Field.fits fine) (by omega)
      simp only [List.length_cons, List.length_append]
      omega
  | new new word path =>
      have inner := path.levels_le fine less
      simp only [List.length_cons]
      omega

end

theorem Expression.fits (bound : Nat) : Expression.Fits bound := by
  induction bound with
  | zero =>
      intro levels tokens expr expression less
      cases less
  | succ bound fits =>
      intro levels tokens expr expression less
      cases expression with
      | signed reads inner =>
          have inside := fits _ _ _ inner (by omega)
          simp only [List.length_cons]
          omega
      | chain primary suffixes =>
          have front := primary.levels_lt fits (by omega)
          have back := suffixes.levels_le fits (by omega)
          simp only [List.length_append]
          omega

theorem Expression.levels_le_length {levels : Nat} {tokens : List Token} {expr : Expr}
    (expression : Expression levels tokens expr) : levels ≤ tokens.length :=
  Expression.fits (levels + 1) _ _ _ expression (Nat.lt_succ_self levels)

theorem Program.levels_le_length {levels : Nat} {tokens : List Token} {found : Option Expr}
    (program : Program levels tokens found) : levels ≤ tokens.length := by
  cases program with
  | nothing => exact Nat.zero_le _
  | expression leading inner trailing =>
      have inside := inner.levels_le_length
      simp only [List.length_append]
      omega

end DocShell.Grammar
