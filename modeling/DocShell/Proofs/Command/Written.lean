import DocShell.Command.Reading
import DocShell.Proofs.Expr.Derivation
import DocShell.Proofs.Value.RoundTrip

namespace DocShell

/-! # Commands with a written document

The text of a document can stand as the argument of a command, and the text of a string as
the name of its collection. The document is then read as it would be on its own, four levels
further in: below the chain, the brackets, the name of the operation and the call. -/

namespace Reader

/-- A phrase that is readable is one that the grammar derives. -/
theorem Phrase.Readable.derives {phrase : Phrase Expr} (readable : phrase.Readable)
    {tokens : List Token} (lexemes : tokens.map (·.lexeme) = phrase.lexemes) :
    ∃ expr levels, phrase.means expr ∧ levels ≤ phrase.need ∧
      Grammar.Expression levels tokens expr := by
  have settled : Settled [] := by
    intro token member
    cases member
  have reads := readable ⟨0, .start⟩ phrase.need
  rcases reads.yields tokens [] lexemes settled with ⟨_, expr, meant, found⟩ | ⟨short, _⟩
  · rcases Grammar.explains_expression _ _ _ _ _ found with ⟨levels, front, equal, fits, derived⟩
    rw [List.append_nil, List.append_nil] at equal
    exact ⟨expr, levels, meant, fits, equal ▸ derived⟩
  · exact absurd (Nat.le_refl _) short

end Reader

namespace Command

open Reader Token

def bracketText (name : List Char) (operation : String) (argument : List Char) : List Char :=
  "db".toList ++ ('[' :: (name ++ (']' :: '.' :: (operation.toList ++
    ('(' :: (argument ++ [')']))))))

def bracketLexemes (name operation : String) (argument : List Lexeme) : List Lexeme :=
  .word "db" :: .mark .bracketOpen :: .string name :: .mark .bracketClose :: .mark .dot ::
    .word operation :: .mark .parenOpen :: (argument ++ [.mark .parenClose])

theorem spells_bracketText (name : String) {operation : String} (nonempty : operation.toList ≠ [])
    (letters : operation.toList.all Char.isAlpha = true)
    (noDigit : ∀ rest, Escape.startsWithDigit (operation.toList ++ rest) = false)
    {argument : List Char} {lexemes : List Lexeme}
    (inside : ∀ rest, Apart rest → Spells argument lexemes rest) :
    Spells (bracketText (Text.quoted name) operation argument)
      (bracketLexemes name operation lexemes) [] := by
  have noDot : Mark.bracketOpen ≠ .dot ∧ Mark.bracketClose ≠ .dot := by decide
  have noParen : Mark.parenOpen ≠ .dot ∧ Mark.parenClose ≠ .dot := by decide
  have closing := (inside _ (apart_cons (by decide) (by decide) _)).append
    (spells_mark noParen.2 [])
  have call := (spells_mark noParen.1 _).cons closing
  have named := (spells_name nonempty letters (apart_cons (by decide) (by decide) _)).cons call
  have dotted : Spells ['.'] [.mark .dot] (operation.toList ++ ('(' :: (argument ++ [')'])) ++ []) := by
    rw [List.append_assoc]
    exact spells_dot (noDigit _)
  have chain := (spells_mark noDot.2 _).cons (dotted.cons named)
  have key := (spells_mark noDot.1 _).cons ((spells_quoted name _).cons chain)
  have db : "db".toList ≠ [] ∧ "db".toList.all Char.isAlpha = true := by decide
  exact (spells_name db.1 db.2 (apart_cons (by decide) (by decide) _)).cons key

/-- What the tokens of such a text are read as, within a limit four levels above what the
argument takes. -/
theorem ofTokens_bracket {name operation : String} {phrase : Phrase Expr}
    (readable : phrase.Readable) {tokens : List Token}
    (lexemes : tokens.map (·.lexeme) = bracketLexemes name operation phrase.lexemes) {limit : Nat}
    (room : phrase.need + 4 ≤ limit) (finish : Position) :
    ∃ argument start bracket key dot call, phrase.means argument ∧
      Expr.ofTokens limit tokens finish = .ok (some (.call call (.member dot
        (.index bracket (.name start "db") (.literal key (.string name))) operation)
        [argument])) := by
  rcases List.map_eq_cons_iff.mp lexemes with ⟨db, tokens, rfl, isDb, lexemes⟩
  rcases List.map_eq_cons_iff.mp lexemes with ⟨opening, tokens, rfl, opens, lexemes⟩
  rcases List.map_eq_cons_iff.mp lexemes with ⟨string, tokens, rfl, isString, lexemes⟩
  rcases List.map_eq_cons_iff.mp lexemes with ⟨closing, tokens, rfl, closes, lexemes⟩
  rcases List.map_eq_cons_iff.mp lexemes with ⟨dot, tokens, rfl, isDot, lexemes⟩
  rcases List.map_eq_cons_iff.mp lexemes with ⟨called, tokens, rfl, isCalled, lexemes⟩
  rcases List.map_eq_cons_iff.mp lexemes with ⟨paren, tokens, rfl, isParen, lexemes⟩
  rcases map_lexeme_append lexemes with ⟨given, last, rfl, given', ended⟩
  rcases List.map_eq_singleton_iff.mp ended with ⟨final, rfl, isFinal⟩
  rcases readable.derives given' with ⟨argument, levels, meant, fits, derived⟩
  refine ⟨argument, db.position, opening.position, string.position, dot.position, paren.position,
    meant, ?_⟩
  have literal : literal? string.lexeme = some (.string name) := by
    rw [isString]
    rfl
  have key : Grammar.Expression 1 ([string] ++ []) (.literal string.position (.string name)) :=
    .chain (.literal literal) .nil
  have chain : Grammar.Expression _ ([db] ++ (opening :: (([string] ++ []) ++ closing :: dot ::
      called :: paren :: (given ++ final :: [])))) (.call paren.position (.member dot.position
        (.index opening.position (.name db.position "db") (.literal string.position (.string name)))
        operation) [argument]) :=
    .chain (.name isDb rfl (by decide)) (.index opens key closes
      (.member isDot isCalled (.call isParen (.last derived) isFinal .nil)))
  exact Grammar.ofTokens_of_expression chain (by omega)

/-! ## The command -/

section

variable (name : String) {operation : String} (argument : Expr)
  (start bracket key dot call : Position)

theorem ofExpr_bracket :
    Link.ofExpr [] (.call call (.member dot (.index bracket (.name start "db")
      (.literal key (.string name))) operation) [argument]) =
      .ok [.name name, .name operation, .call [argument] call] := by
  rfl

theorem ofLinks_bracket (findLimit : Int) :
    ofLinks findLimit [.name name, .name operation, .call [argument] call] =
      (begin findLimit name operation [argument] call).map (·.fields) := by
  have links : Link.splitAtCall [.name name, .name operation, .call [argument] call] =
      ([name, operation], [.call [argument] call]) := rfl
  have collection : ".".intercalate [name] = name := rfl
  rw [ofLinks, links]
  simp only [List.reverse_cons, List.reverse_nil, List.nil_append, List.singleton_append,
    collection]
  cases begin findLimit name operation [argument] call <;> rfl

end

theorem ofName?_name (operation : Operation) :
    Operation.ofName? operation.name = some operation := by
  cases operation <;> rfl

theorem begin_one {operation : Operation} (arity : 0 < operation.arity) {argument : Expr}
    {value : Value} (evaluated : argument.evaluate = .ok value) (findLimit : Int) (name : String)
    (call : Position) :
    (begin findLimit name operation.name [argument] call).map (·.fields) =
      operation.fields name findLimit ⟨call, [⟨value, argument.position, none⟩]⟩ := by
  have fits : ¬operation.arity < [argument].length := Nat.not_lt.mpr arity
  simp only [begin, ofName?_name, CallArguments.evaluate, if_neg fits, CallArguments.evaluateAll,
    evaluated]
  change ((operation.fields name findLimit _).bind _).map _ = _
  cases operation.fields name findLimit ⟨call, [⟨value, argument.position, none⟩]⟩ <;> rfl

theorem text_bracket (name operation : String) (value : Value) (outer indent : Nat)
    {opening : String} (opens : opening.toList = ']' :: '.' :: (operation.toList ++ ['('])) :
    "db[" ++ (Value.string name).shellText outer ++ opening ++ value.shellText indent ++ ")" =
      String.ofList (bracketText (Text.quoted name) operation (value.written indent 0)) := by
  refine String.toList_inj.mp ?_
  simp [bracketText, Value.shellText, Value.written, opens, String.toList_append]

/-- An operation in front of a written value makes of the value what it would of its normal
form. -/
theorem ofShell_bracketText (name : String) {operation : Operation} (arity : 0 < operation.arity)
    (nonempty : operation.name.toList ≠ [])
    (letters : operation.name.toList.all Char.isAlpha = true)
    (noDigit : ∀ rest, Escape.startsWithDigit (operation.name.toList ++ rest) = false)
    {value : Value} (sound : value.Sound) (closed : value.Closed) (present : value.isAbsent = false)
    (indent : Nat) {limit : Nat} (room : value.need + 4 ≤ limit) (findLimit : Int) :
    ∃ call position, ofShell limit findLimit
      (String.ofList (bracketText (Text.quoted name) operation.name (value.written indent 0))) =
        operation.fields name findLimit ⟨call, [⟨value.normal, position, none⟩]⟩ := by
  have spells := spells_bracketText name nonempty letters noDigit fun _ apart =>
    Value.spells_written sound closed indent 0 apart
  rcases spells.scan with ⟨tokens, finish, scanned, lexemes⟩
  have readable := Value.readable_phrase sound present
  rcases ofTokens_bracket readable lexemes room finish with
    ⟨argument, start, bracket, key, dot, call, ⟨read, ⟨meaning, meant, rfl⟩, plain⟩, parsed⟩
  have evaluated : argument.evaluate = .ok value.normal := by
    rw [Expr.evaluate, meant, ← plain]
    rfl
  refine ⟨call, argument.position, ?_⟩
  rw [← begin_one arity evaluated, ← ofLinks_bracket]
  simp only [ofShell, Expr.parse, scanned, parsed, bind, Except.bind, ofExpr_bracket]

/-- The text of a document, as the argument of an insertion or of a search, on a collection
whose name is the text of a string. -/
theorem ofShell_written (name : String) {fields : Fields Value}
    (sound : (Value.document fields).Sound) (closed : (Value.document fields).Closed)
    (outer indent : Nat) {limit : Nat} (room : (Value.document fields).need + 4 ≤ limit)
    (findLimit : Int) :
    ofShell limit findLimit ("db[" ++ (Value.string name).shellText outer ++ "].insertOne(" ++
        (Value.document fields).shellText indent ++ ")") =
      .ok [("insert", .string name), ("documents", .array [(Value.document fields).normal])] ∧
    ofShell limit findLimit ("db[" ++ (Value.string name).shellText outer ++ "].find(" ++
        (Value.document fields).shellText indent ++ ")") =
      .ok [("find", .string name), ("filter", (Value.document fields).normal),
        ("limit", .number (Double.ofInt findLimit))] := by
  constructor
  · have arity : 0 < Operation.insertOne.arity := by decide
    rcases ofShell_bracketText name arity (by decide) (by decide) (fun _ => rfl) sound closed rfl
      indent room findLimit with ⟨call, position, found⟩
    rw [text_bracket name Operation.insertOne.name _ outer indent rfl, found]
    rfl
  · have arity : 0 < Operation.find.arity := by decide
    rcases ofShell_bracketText name arity (by decide) (by decide) (fun _ => rfl) sound closed rfl
      indent room findLimit with ⟨call, position, found⟩
    rw [text_bracket name Operation.find.name _ outer indent rfl, found]
    rfl

/-- A closed class with a slash in it, on a collection whose name looks like the text behind
it. -/
theorem ofShell_written_slashClass :
    ofShell 9 10 ("db[" ++ (Value.string "a\"].b").shellText 0 ++ "].insertOne(" ++
        (Value.document [("p", .array [.regex ⟨"[/]", "i"⟩, .absent])]).shellText 2 ++ ")") =
      .ok [("insert", .string "a\"].b"),
        ("documents", .array [.document [("p", .array [.regex ⟨"[/]", "i"⟩, .null])]])] := by
  have sound : (Value.document [("p", .array [.regex ⟨"[/]", "i"⟩, .absent])]).Sound :=
    ⟨List.pairwise_singleton _ "p", ⟨trivial, rfl, trivial, trivial⟩, trivial⟩
  have closed : (Value.document [("p", .array [.regex ⟨"[/]", "i"⟩, .absent])]).Closed :=
    ⟨trivial, ⟨trivial, rfl, trivial, trivial⟩, trivial⟩
  exact (ofShell_written "a\"].b" sound closed 0 2 (by decide) 10).1

end Command

end DocShell
