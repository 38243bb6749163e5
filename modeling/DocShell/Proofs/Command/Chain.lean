import Mathlib
import DocShell.Proofs.Command.Form

namespace DocShell

/-! # Chains that are commands

A chain that is a command names a collection, calls an operation on it, and, where that
gives a cursor, calls modifiers and at most one terminal at the end. The form of the
command follows from the operation and the terminal alone. -/

namespace Command

structure Called (kind : Type) where
  method : kind
  given : List Expr
  position : Position

def Called.links {kind : Type} (label : kind → String) (called : Called kind) : List Link :=
  [.name (label called.method), .call called.given called.position]

/-- The calls on a cursor. Only the last one may be that of a terminal. -/
structure Calls where
  modifiers : List (Called Modifier)
  terminal : Option (Called Terminal)

namespace Calls

def none : Calls := ⟨[], .none⟩

def links (calls : Calls) : List Link :=
  calls.modifiers.flatMap (Called.links Modifier.name) ++
    calls.terminal.toList.flatMap (Called.links Terminal.name)

def stage (start : Stage) (calls : Calls) : Stage :=
  match calls.terminal with
  | some last => .ended last.method
  | .none => start

def cons (first : Called Modifier) (calls : Calls) : Calls :=
  ⟨first :: calls.modifiers, calls.terminal⟩

theorem links_cons (first : Called Modifier) (calls : Calls) :
    (cons first calls).links = first.links Modifier.name ++ calls.links := by
  simp only [links, cons, List.flatMap_cons, List.append_assoc]

end Calls

structure Chain where
  collection : List String
  operation : Called Operation
  calls : Calls
  named : collection ≠ []
  onCursor : operation.method = .find ∨ operation.method = .findOne ∨ calls = .none

namespace Chain

def links (chain : Chain) : List Link :=
  chain.collection.map .name ++ chain.operation.links Operation.name ++ chain.calls.links

def form (chain : Chain) : Form :=
  match chain.calls.terminal with
  | some ⟨.explain, _, _⟩ => .explanation
  | _ => chain.operation.method.form

/-- The form is that of the stage at the end. -/
theorem form_of_stage (chain : Chain) :
    (chain.calls.stage (if chain.operation.method.givesCursor then .cursor
      else .done chain.operation.method)).form = chain.form := by
  rcases chain with ⟨collection, ⟨operation, given, call⟩, ⟨modifiers, terminal⟩, named, onCursor⟩
  rcases terminal with _ | ⟨terminal, _, _⟩
  · cases operation <;> rfl
  · cases terminal with
    | explain => rfl
    | toArray =>
        rcases onCursor with isFind | isFindOne | isNone
        · cases isFind
          rfl
        · cases isFindOne
          rfl
        · cases isNone

end Chain

/-! ## The calls on a cursor -/

def stageBehind : Method → Stage
  | .modifier _ => .cursor
  | .terminal last => .ended last

theorem stage_of_effect {fields : Fields Value} {arguments : CallArguments} {method : Method}
    {after : State} (done : effect fields arguments method = .ok after) :
    after.stage = stageBehind method := by
  rcases method with modifier | terminal
  · rcases bind_pure_eq_ok.mp done with ⟨_, _, rfl⟩
    rfl
  · cases terminal with
    | explain =>
        rcases bind_pure_eq_ok.mp done with ⟨_, _, rfl⟩
        rfl
    | toArray =>
        cases done
        rfl

/-- A run from a state of some form consists of calls, none unless the state is a cursor,
and leads to a command in the form of the last stage. -/
theorem calls_of_finish {collection : String} {state : State} {links : List Link}
    {made : Fields Value} (formed : state.Formed collection)
    (finished : finish collection state links = .ok made) :
    ∃ calls : Calls, calls.links = links ∧ (state.stage = .cursor ∨ calls = .none) ∧
      (calls.stage state.stage).form.Describes collection made := by
  fun_induction finish collection state links with
  | case1 state =>
      cases finished
      exact ⟨.none, rfl, .inr rfl, formed⟩
  | case2 => cases finished
  | case3 state label given call rest induction =>
      rcases bind_eq_ok.mp finished with ⟨after, stepped, more⟩
      rcases induction after (formed_of_next formed stepped) more with
        ⟨calls, same, onCursor, describes⟩
      rcases next_eq_ok stepped with ⟨method, arguments, equal, isCursor, _, done⟩
      have stage := stage_of_effect done
      rw [stage] at onCursor describes
      rcases method with modifier | terminal
      · refine ⟨.cons ⟨modifier, given, call⟩ calls, ?_, .inl isCursor, ?_⟩
        · rw [Calls.links_cons, same, equal]
          rfl
        · rw [isCursor]
          exact describes
      · -- behind a terminal nothing follows, so the rest of the links is empty
        have last : calls = .none := by
          rcases onCursor with impossible | last
          · cases impossible
          · exact last
        subst last
        subst same
        refine ⟨⟨[], some ⟨terminal, given, call⟩⟩, ?_, .inl isCursor, describes⟩
        rw [equal]
        rfl
  | case4 => cases finished

/-! ## Whole chains -/

theorem chain_of_ofLinks {findLimit : Int} {links : List Link} {made : Fields Value}
    (found : ofLinks findLimit links = .ok made) :
    ∃ chain : Chain, chain.links = links ∧
      chain.form.Describes (".".intercalate chain.collection) made := by
  rcases ofLinks_eq_ok found with
    ⟨collection, label, given, call, rest, state, named, rfl, started, finished⟩
  rcases calls_of_finish (formed_of_begin started) finished with ⟨calls, same, onCursor, describes⟩
  rcases begin_eq_ok started with ⟨operation, arguments, fields, equal, _, _, rfl⟩
  have only : operation = .find ∨ operation = .findOne ∨ calls = .none := by
    rcases onCursor with isCursor | isNone
    · revert isCursor
      cases operation <;> simp [Operation.givesCursor]
    · exact .inr (.inr isNone)
  let chain : Chain := ⟨collection, ⟨operation, given, call⟩, calls, named, only⟩
  refine ⟨chain, ?_, chain.form_of_stage ▸ describes⟩
  rw [List.map_append, equal, ← same]
  simp only [Chain.links, Called.links, chain, List.map_cons, List.map_nil, List.append_assoc,
    List.cons_append, List.nil_append]

/-- The chain of a text that is a command, and the only form that the command has. -/
theorem chain_of_ofShell {limit : Nat} {findLimit : Int} {text : String} {made : Fields Value}
    (found : ofShell limit findLimit text = .ok made) :
    ∃ expr chain, Expr.parse limit text = .ok (some expr) ∧
      Link.ofExpr [] expr = .ok (Chain.links chain) ∧
      chain.form.Describes (".".intercalate chain.collection) made ∧
      ∀ other collection, Form.Describes collection other made → other = chain.form := by
  rcases bind_eq_ok.mp found with ⟨parsed, read, more⟩
  cases parsed with
  | none => cases more
  | some expr =>
      rcases bind_eq_ok.mp more with ⟨links, linked, finished⟩
      rcases chain_of_ofLinks finished with ⟨chain, rfl, describes⟩
      refine ⟨expr, chain, read, linked, describes, fun other collection fits => ?_⟩
      exact Form.eq_of_describes fits describes

set_option maxRecDepth 2000 in
theorem parse_explained :
    Expr.parse 9 "db.c.find().hint(\"i\").explain()" = .ok (some
      (.call ⟨1, 30⟩ (.member ⟨1, 22⟩ (.call ⟨1, 17⟩ (.member ⟨1, 12⟩
        (.call ⟨1, 10⟩ (.member ⟨1, 5⟩ (.member ⟨1, 3⟩ (.name ⟨1, 1⟩ "db") "c") "find") [])
        "hint") [.literal ⟨1, 18⟩ (.string "i")]) "explain") [])) := by cbv

theorem ofShell_explained :
    ofShell 9 1 "db.c.find().hint(\"i\").explain()" =
      .ok [("explain", .document [("find", .string "c"), ("limit", .number (Double.ofInt 1)),
        ("hint", .string "i")])] := by
  rw [ofShell, parse_explained]
  rfl

theorem chain_of_ofShell_explained :
    ofShell 9 1 "db.c.find().hint(\"i\").explain()" =
        .ok [("explain", .document [("find", .string "c"), ("limit", .number (Double.ofInt 1)),
          ("hint", .string "i")])] ∧
      ∃ expr chain, Expr.parse 9 "db.c.find().hint(\"i\").explain()" = .ok (some expr) ∧
        Link.ofExpr [] expr = .ok (Chain.links chain) ∧
        chain.form.Describes (".".intercalate chain.collection)
          [("explain", .document [("find", .string "c"), ("limit", .number (Double.ofInt 1)),
            ("hint", .string "i")])] ∧
        ∀ other collection, Form.Describes collection other
          [("explain", .document [("find", .string "c"), ("limit", .number (Double.ofInt 1)),
            ("hint", .string "i")])] → other = chain.form :=
  ⟨ofShell_explained, chain_of_ofShell ofShell_explained⟩

end Command

end DocShell
