import DocShell.Proofs.Command.Chain

namespace DocShell

/-! # Accepted calls

Which calls a search and its cursor accept, and what comes of them, does not depend on the rest
of the chain. A search takes a filter and a projection, a modifier the one value that it writes,
and the call at the end at most how much an explanation tells. -/

/-! ## Arguments -/

namespace CallArguments

theorem evaluateAll_nil : evaluateAll [] = .ok [] := rfl

theorem evaluateAll_cons {expr : Expr} {rest : List Expr} {value : Value}
    {behind : List Argument} (evaluated : expr.evaluate = .ok value)
    (others : evaluateAll rest = .ok behind) :
    evaluateAll (expr :: rest) = .ok (⟨value, expr.position, none⟩ :: behind) :=
  evaluateAll_cons_eq_ok_iff.mpr ⟨value, evaluated, behind, others, rfl⟩

/-- The arguments of a call that takes at most one. -/
theorem evaluate_one_eq_ok_iff {who : String} {given : List Expr} {call : Position}
    {arguments : CallArguments} : evaluate who 1 given call = .ok arguments ↔
      (given = [] ∧ ⟨call, []⟩ = arguments) ∨
      ∃ expr value, given = [expr] ∧ expr.evaluate = .ok value ∧
        ⟨call, [⟨value, expr.position, none⟩]⟩ = arguments := by
  rw [evaluate_eq_ok_iff]
  constructor
  · rintro ⟨few, all, evaluated, rfl⟩
    match given, few with
    | [], _ =>
        cases evaluated
        exact .inl ⟨rfl, rfl⟩
    | [expr], _ =>
        rcases evaluateAll_cons_eq_ok_iff.mp evaluated with ⟨value, meant, behind, ⟨⟩, rfl⟩
        exact .inr ⟨expr, value, rfl, meant, rfl⟩
  · rintro (⟨rfl, rfl⟩ | ⟨expr, value, rfl, meant, rfl⟩)
    · exact ⟨Nat.zero_le 1, [], rfl, rfl⟩
    · exact ⟨Nat.le_refl 1, _, evaluateAll_cons meant evaluateAll_nil, rfl⟩

theorem evaluate_none_eq_ok_iff {who : String} {given : List Expr} {call : Position}
    {arguments : CallArguments} :
    evaluate who 0 given call = .ok arguments ↔ given = [] ∧ ⟨call, []⟩ = arguments := by
  rw [evaluate_eq_ok_iff]
  constructor
  · rintro ⟨few, all, evaluated, rfl⟩
    cases List.eq_nil_of_length_eq_zero (Nat.le_zero.mp few)
    cases evaluated
    exact ⟨rfl, rfl⟩
  · rintro ⟨rfl, rfl⟩
    exact ⟨Nat.le_refl 0, [], rfl, rfl⟩

end CallArguments

namespace Command

theorem ofName?_method (method : Method) : Method.ofName? method.name = some method := by
  rcases method with modifier | terminal
  · cases modifier <;> rfl
  · cases terminal <;> rfl

theorem next_method (collection : String) (fields : Fields Value) (method : Method)
    (given : List Expr) (call : Position) :
    next collection ⟨fields, .cursor⟩ method.name given call =
      CallArguments.evaluate method.name method.arity given call >>= fun arguments =>
        effect fields arguments method := by
  rw [next, ofName?_method]
  exact apply_eq fields method given call

/-! ## Modifiers -/

/-- A call of a modifier with the one argument that it takes, and the field that it writes. -/
inductive Writes : Called Modifier → String × Value → Prop
  | argument {modifier : Modifier} {expr : Expr} {call : Position} {value : Value}
      (evaluated : expr.evaluate = .ok value) (takes : modifier.Takes value) :
      Writes ⟨modifier, [expr], call⟩ (modifier.field, value)

/-- A modifier writes its field, whatever the command is so far. -/
theorem next_modifier_eq_ok_iff {collection : String} {fields : Fields Value}
    {called : Called Modifier} {after : State} :
    next collection ⟨fields, .cursor⟩ called.method.name called.given called.position = .ok after ↔
      ∃ write, Writes called write ∧ ⟨Fields.insert write.1 write.2 fields, .cursor⟩ = after := by
  rcases called with ⟨modifier, given, call⟩
  have step := next_method collection fields (.modifier modifier) given call
  rw [Method.name] at step
  simp only [step, bind_eq_ok]
  constructor
  · rintro ⟨_, evaluated, done⟩
    rcases bind_pure_eq_ok.mp done with ⟨written, found, rfl⟩
    rcases Modifier.value_eq_ok_iff.mp found with ⟨takes, rfl⟩
    rcases CallArguments.evaluate_one_eq_ok_iff.mp evaluated with
      ⟨rfl, rfl⟩ | ⟨expr, value, rfl, meant, rfl⟩
    · cases Modifier.isAbsent_of_takes takes
    · exact ⟨(modifier.field, value), .argument meant takes, rfl⟩
  · rintro ⟨_, ⟨meant, takes⟩, rfl⟩
    exact ⟨_, CallArguments.evaluate_one_eq_ok_iff.mpr (.inr ⟨_, _, rfl, meant, rfl⟩),
      bind_pure_eq_ok.mpr ⟨_, Modifier.value_eq_ok_iff.mpr ⟨takes, rfl⟩, rfl⟩⟩

/-! ## The call at the end -/

inductive Wrapping
  | bare
  | explained (verbosity : Option String)

def Wrapping.around : Wrapping → Fields Value → Fields Value
  | .bare, search => search
  | .explained verbosity, search =>
      ("explain", .document search) :: Form.optional "verbosity" (verbosity.map .string)

inductive Ends : Option (Called Terminal) → Wrapping → Prop
  | cursor : Ends none .bare
  | toArray {call : Position} : Ends (some ⟨.toArray, [], call⟩) .bare
  | explain {call : Position} : Ends (some ⟨.explain, [], call⟩) (.explained none)
  | verbosity {expr : Expr} {call : Position} {value : Value} {text : Option String}
      (evaluated : expr.evaluate = .ok value) (asked : value.IsVerbosity text) :
      Ends (some ⟨.explain, [expr], call⟩) (.explained text)

/-- A terminal wraps the command, whatever that is. -/
theorem next_terminal_eq_ok_iff {collection : String} {fields : Fields Value}
    {called : Called Terminal} {after : State} :
    next collection ⟨fields, .cursor⟩ called.method.name called.given called.position = .ok after ↔
      ∃ wrapping, Ends (some called) wrapping ∧
        ⟨wrapping.around fields, .ended called.method⟩ = after := by
  rcases called with ⟨terminal, given, call⟩
  have step := next_method collection fields (.terminal terminal) given call
  rw [Method.name] at step
  simp only [step, bind_eq_ok]
  cases terminal with
  | toArray =>
      constructor
      · rintro ⟨_, evaluated, ⟨⟩⟩
        rcases CallArguments.evaluate_none_eq_ok_iff.mp evaluated with ⟨rfl, rfl⟩
        exact ⟨.bare, .toArray, rfl⟩
      · rintro ⟨_, ⟨⟩, rfl⟩
        exact ⟨_, CallArguments.evaluate_none_eq_ok_iff.mpr ⟨rfl, rfl⟩, rfl⟩
  | explain =>
      constructor
      · rintro ⟨_, evaluated, done⟩
        rcases bind_pure_eq_ok.mp done with ⟨told, found, rfl⟩
        rcases Terminal.verbosity_eq_ok_iff.mp found with ⟨text, asked, rfl⟩
        rcases CallArguments.evaluate_one_eq_ok_iff.mp evaluated with
          ⟨rfl, rfl⟩ | ⟨expr, value, rfl, meant, rfl⟩
        · cases asked
          exact ⟨.explained none, .explain, rfl⟩
        · exact ⟨.explained text, .verbosity meant asked, rfl⟩
      · rintro ⟨_, ends, rfl⟩
        cases ends with
        | explain =>
            exact ⟨_, CallArguments.evaluate_one_eq_ok_iff.mpr (.inl ⟨rfl, rfl⟩), rfl⟩
        | verbosity meant asked =>
            exact ⟨_, CallArguments.evaluate_one_eq_ok_iff.mpr (.inr ⟨_, _, rfl, meant, rfl⟩),
              bind_pure_eq_ok.mpr ⟨_, Terminal.verbosity_eq_ok_iff.mpr ⟨_, asked, rfl⟩, rfl⟩⟩

/-! ## All calls -/

theorem finish_call (collection label : String) (state : State) (given : List Expr)
    (call : Position) (rest : List Link) :
    finish collection state (.name label :: .call given call :: rest) =
      next collection state label given call >>= fun after => finish collection after rest := rfl

/-- Calls on a cursor succeed just if each of them is accepted, and write one after the other. -/
theorem finish_calls_eq_ok_iff {collection : String} {fields made : Fields Value} {calls : Calls} :
    finish collection ⟨fields, .cursor⟩ calls.links = .ok made ↔
      ∃ writes wrapping, List.Forall₂ Writes calls.modifiers writes ∧
        Ends calls.terminal wrapping ∧
        wrapping.around (writes.foldl (fun fields write => Fields.insert write.1 write.2 fields)
          fields) = made := by
  rcases calls with ⟨modifiers, terminal⟩
  -- On the modifiers, for any command so far, as each call writes into what those before it made.
  induction modifiers generalizing fields with
  | nil =>
      cases terminal with
      | none =>
          constructor
          · rintro ⟨⟩
            exact ⟨[], .bare, .nil, .cursor, rfl⟩
          · rintro ⟨_, _, ⟨⟩, ⟨⟩, rfl⟩
            rfl
      | some called =>
          have links : (Calls.mk [] (some called)).links =
              [.name called.method.name, .call called.given called.position] := rfl
          rw [links, finish_call, bind_eq_ok]
          constructor
          · rintro ⟨_, stepped, ⟨⟩⟩
            rcases next_terminal_eq_ok_iff.mp stepped with ⟨wrapping, ends, rfl⟩
            exact ⟨[], wrapping, .nil, ends, rfl⟩
          · rintro ⟨_, wrapping, ⟨⟩, ends, rfl⟩
            exact ⟨_, next_terminal_eq_ok_iff.mpr ⟨wrapping, ends, rfl⟩, rfl⟩
  | cons called rest induction =>
      have links : (Calls.mk (called :: rest) terminal).links = .name called.method.name ::
          .call called.given called.position :: (Calls.mk rest terminal).links :=
        Calls.links_cons called ⟨rest, terminal⟩
      rw [links, finish_call, bind_eq_ok]
      constructor
      · rintro ⟨after, stepped, finished⟩
        rcases next_modifier_eq_ok_iff.mp stepped with ⟨write, writes, rfl⟩
        rcases induction.mp finished with ⟨others, wrapping, each, ends, around⟩
        exact ⟨write :: others, wrapping, .cons writes each, ends, around⟩
      · rintro ⟨_, wrapping, _ | ⟨writes, each⟩, ends, around⟩
        exact ⟨_, next_modifier_eq_ok_iff.mpr ⟨_, writes, rfl⟩,
          induction.mpr ⟨_, wrapping, each, ends, around⟩⟩

/-! ## The first call -/

/-- The arguments of a search: a filter and a projection, each of which may be left out. -/
inductive Asks : List Expr → Option (Fields Value) → Option (Fields Value) → Prop
  | everything : Asks [] none none
  | filter {first : Expr} {value : Value} {filter : Option (Fields Value)}
      (evaluated : first.evaluate = .ok value) (optional : value.IsOptional filter) :
      Asks [first] filter none
  | projection {first second : Expr} {value other : Value}
      {filter projection : Option (Fields Value)}
      (evaluated : first.evaluate = .ok value) (optional : value.IsOptional filter)
      (otherEvaluated : second.evaluate = .ok other) (otherOptional : other.IsOptional projection) :
      Asks [first, second] filter projection

def searchFields (collection : String) (limit : Int) (filter projection : Option (Fields Value)) :
    Fields Value :=
  ("find", .string collection) :: Operation.optionalField "filter" filter ++
    ("limit", .number (Double.ofInt limit)) :: Operation.optionalField "projection" projection

def searchLimit (findLimit : Int) : Operation → Int
  | .findOne => 1
  | _ => findLimit

theorem findFields_eq_ok_iff {who collection : String} {limit : Int} {arguments : CallArguments}
    {made : Fields Value} :
    Operation.findFields who collection limit arguments = .ok made ↔
      ∃ filter projection, (arguments.nth 0).value.IsOptional filter ∧
        (arguments.nth 1).value.IsOptional projection ∧
        searchFields collection limit filter projection = made := by
  unfold Operation.findFields
  simp only [bind_eq_ok, Argument.optionalDocument_eq_ok_iff]
  constructor
  · rintro ⟨filter, first, projection, second, ⟨⟩⟩
    exact ⟨filter, projection, first, second, rfl⟩
  · rintro ⟨filter, projection, first, second, rfl⟩
    exact ⟨filter, first, projection, second, rfl⟩

theorem begin_search_eq_ok_iff {findLimit : Int} {collection : String} {operation : Operation}
    (isSearch : operation = .find ∨ operation = .findOne) {given : List Expr} {call : Position}
    {state : State} :
    begin findLimit collection operation.name given call = .ok state ↔
      ∃ filter projection, Asks given filter projection ∧
        ⟨searchFields collection (searchLimit findLimit operation) filter projection, .cursor⟩ =
          state := by
  have start : begin findLimit collection operation.name given call =
      CallArguments.evaluate operation.name 2 given call >>= fun arguments =>
        Operation.findFields operation.name collection (searchLimit findLimit operation) arguments >>=
          fun fields => pure ⟨fields, .cursor⟩ := by
    rcases isSearch with rfl | rfl <;> rfl
  rw [start]
  simp only [bind_eq_ok, CallArguments.evaluate_eq_ok_iff, findFields_eq_ok_iff]
  constructor
  · rintro ⟨_, ⟨few, all, evaluated, rfl⟩, _, ⟨filter, projection, first, second, rfl⟩, ⟨⟩⟩
    refine ⟨filter, projection, ?_, rfl⟩
    match given, few with
    | [], _ =>
        cases evaluated
        cases first
        cases second
        exact .everything
    | [expr], _ =>
        rcases CallArguments.evaluateAll_cons_eq_ok_iff.mp evaluated with
          ⟨value, meant, behind, ⟨⟩, rfl⟩
        cases second
        exact .filter meant first
    | [expr, other], _ =>
        rcases CallArguments.evaluateAll_cons_eq_ok_iff.mp evaluated with
          ⟨value, meant, behind, more, rfl⟩
        rcases CallArguments.evaluateAll_cons_eq_ok_iff.mp more with
          ⟨otherValue, otherMeant, behind, ⟨⟩, rfl⟩
        exact .projection meant first otherMeant second
  · rintro ⟨filter, projection, asks, rfl⟩
    cases asks with
    | everything =>
        exact ⟨_, ⟨Nat.zero_le 2, [], rfl, rfl⟩, _, ⟨none, none, .absent, .absent, rfl⟩, rfl⟩
    | filter evaluated optional =>
        have all := CallArguments.evaluateAll_cons evaluated CallArguments.evaluateAll_nil
        exact ⟨_, ⟨Nat.le_succ 1, _, all, rfl⟩, _, ⟨_, none, optional, .absent, rfl⟩, rfl⟩
    | projection evaluated optional otherEvaluated otherOptional =>
        have all := CallArguments.evaluateAll_cons evaluated
          (CallArguments.evaluateAll_cons otherEvaluated CallArguments.evaluateAll_nil)
        exact ⟨_, ⟨Nat.le_refl 2, _, all, rfl⟩, _, ⟨_, _, optional, otherOptional, rfl⟩, rfl⟩

/-! ## Searches -/

theorem ofLinks_links (findLimit : Int) (chain : Chain) :
    ofLinks findLimit chain.links =
      begin findLimit (".".intercalate chain.collection) chain.operation.method.name
          chain.operation.given chain.operation.position >>= fun state =>
        finish (".".intercalate chain.collection) state chain.calls.links := by
  rcases chain with ⟨collection, ⟨operation, given, call⟩, calls, named, onCursor⟩
  have links : collection.map Link.name ++ Called.links Operation.name ⟨operation, given, call⟩ ++
      calls.links = (collection ++ [operation.name]).map .name ++ .call given call :: calls.links := by
    simp [Called.links]
  -- two names at least stand before the call, the last of them that of the operation
  rcases List.exists_cons_of_ne_nil (List.reverse_ne_nil_iff.mpr named) with ⟨last, front, reversed⟩
  have backwards : (collection ++ [operation.name]).reverse = operation.name :: last :: front := by
    rw [List.reverse_append, reversed]
    rfl
  have again : (last :: front).reverse = collection := by
    rw [← reversed, List.reverse_reverse]
  rw [Chain.links, links, ofLinks, Link.splitAtCall_names]
  simp only [backwards, again]

end Command

end DocShell
