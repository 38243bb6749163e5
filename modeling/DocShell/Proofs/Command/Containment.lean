import DocShell.Proofs.Command.Chain
import DocShell.Proofs.Evaluation.Containment
import DocShell.Proofs.Expr.Refusal

namespace DocShell

/-! # Containment of commands

A chain is not evaluated, but all that stands in its brackets and its calls is. The names
that it may use are therefore those of any other expression, and `db` is none of them. -/

namespace Expr

def root : Expr → Expr
  | .member _ owner _ => owner.root
  | .index _ owner _ => owner.root
  | .call _ callee _ => callee.root
  | expr => expr

def keys : Expr → List Expr
  | .member _ owner _ => owner.keys
  | .index _ owner key => key :: owner.keys
  | .call _ callee _ => callee.keys
  | _ => []

def arguments : Expr → List Expr
  | .member _ owner _ => owner.arguments
  | .index _ owner _ => owner.arguments
  | .call _ callee given => callee.arguments ++ given
  | _ => []

theorem occurs_of_mem_arguments {argument expr : Expr} (member : argument ∈ expr.arguments) :
    argument.Occurs expr := by
  fun_induction arguments expr with
  | case1 position owner label induction => exact .inside List.mem_cons_self (induction member)
  | case2 position owner key induction => exact .inside List.mem_cons_self (induction member)
  | case3 position callee given induction =>
      rcases List.mem_append.mp member with inner | last
      · exact .inside List.mem_cons_self (induction inner)
      · exact .inside (List.mem_cons_of_mem _ last) .here
  | case4 expr => cases member

end Expr

open DocShell.Expr

namespace CallArguments

theorem through_evaluateAll (given : List Expr) : Through given (evaluateAll given) := by
  induction given with
  | nil => exact through_nil (failsOnly_ok _)
  | cons expr rest induction =>
      exact (through_evaluate expr).append fun _ => induction.bind fun _ => failsOnly_ok _

theorem through_callArguments (who : String) (limit : Nat) (given : List Expr) (call : Position) :
    Through given (evaluate who limit given call) := by
  unfold evaluate
  split
  · exact through_error (Failure.nameless_misuse _ _)
  · exact (through_evaluateAll given).bind fun _ => failsOnly_ok _

end CallArguments

/-! ## What is done with arguments -/

namespace Argument

theorem failsOnly_document (argument : Argument) (who what : String) :
    FailsOnly Failure.Nameless (argument.document who what) := by
  unfold document
  split
  · exact failsOnly_ok _
  · exact failsOnly_error (Failure.nameless_misuse _ _)

theorem failsOnly_optionalDocument (argument : Argument) (who what : String) :
    FailsOnly Failure.Nameless (argument.optionalDocument who what) := by
  unfold optionalDocument
  split
  · exact failsOnly_ok _
  · exact failsOnly_ok _
  · exact (argument.failsOnly_document who what).bind fun _ => failsOnly_ok _

end Argument

namespace Operation

open Argument

theorem failsOnly_documents (argument : Argument) (who : String) :
    FailsOnly Failure.Nameless (documents argument who) := by
  unfold documents
  extract_lets refusal
  split
  · split
    · exact failsOnly_ok _
    · exact failsOnly_error (Failure.nameless_misuse _ _)
  · exact failsOnly_error (Failure.nameless_misuse _ _)

theorem failsOnly_update (argument : Argument) (who : String) :
    FailsOnly Failure.Nameless (update argument who) := by
  unfold update
  split
  · exact failsOnly_ok _
  · exact failsOnly_ok _
  · exact failsOnly_error (Failure.nameless_misuse _ _)

variable (arguments : CallArguments)

theorem failsOnly_findFields (who collection : String) (limit : Int) :
    FailsOnly Failure.Nameless (findFields who collection limit arguments) :=
  (failsOnly_optionalDocument _ _ _).bind fun _ =>
    (failsOnly_optionalDocument _ _ _).bind fun _ => failsOnly_ok _

theorem failsOnly_updateFields (who collection : String) (multi : Bool) :
    FailsOnly Failure.Nameless (updateFields who collection multi arguments) :=
  (failsOnly_document _ _ _).bind fun _ => (failsOnly_update _ _).bind fun _ =>
    (failsOnly_optionalDocument _ _ _).bind fun _ => failsOnly_ok _

theorem failsOnly_deleteFields (who collection : String) (limit : Int) :
    FailsOnly Failure.Nameless (deleteFields who collection limit arguments) :=
  (failsOnly_document _ _ _).bind fun _ => failsOnly_ok _

theorem failsOnly_fields (operation : Operation) (collection : String) (findLimit : Int) :
    FailsOnly Failure.Nameless (operation.fields collection findLimit arguments) := by
  cases operation with
  | find => exact failsOnly_findFields arguments _ _ _
  | findOne => exact failsOnly_findFields arguments _ _ _
  | insertOne => exact (failsOnly_document _ _ _).bind fun _ => failsOnly_ok _
  | insertMany => exact (failsOnly_documents _ _).bind fun _ => failsOnly_ok _
  | updateOne => exact failsOnly_updateFields arguments _ _ _
  | updateMany => exact failsOnly_updateFields arguments _ _ _
  | deleteOne => exact failsOnly_deleteFields arguments _ _ _
  | deleteMany => exact failsOnly_deleteFields arguments _ _ _
  | getIndexes => exact failsOnly_ok _

end Operation

theorem Modifier.failsOnly_value (modifier : Modifier) (argument : Argument) :
    FailsOnly Failure.Nameless (modifier.value argument) := by
  cases modifier with
  | sort => exact (argument.failsOnly_document _ _).bind fun _ => failsOnly_ok _
  | project => exact (argument.failsOnly_document _ _).bind fun _ => failsOnly_ok _
  | _ =>
      rw [value]
      split
      all_goals first
        | exact failsOnly_ok _
        | exact failsOnly_error (Failure.nameless_misuse _ _)

theorem Terminal.failsOnly_verbosity (argument : Argument) :
    FailsOnly Failure.Nameless (verbosity argument) := by
  unfold verbosity
  extract_lets refusal
  split
  · exact failsOnly_ok _
  · split
    · exact failsOnly_ok _
    · exact failsOnly_error (Failure.nameless_misuse _ _)
  · exact failsOnly_error (Failure.nameless_misuse _ _)

/-! ## Chains -/

namespace Command

theorem failsOnly_effect (fields : Fields Value) (arguments : CallArguments) (method : Method) :
    FailsOnly Failure.Nameless (effect fields arguments method) := by
  rcases method with modifier | terminal
  · exact (modifier.failsOnly_value _).bind fun _ => failsOnly_ok _
  · cases terminal with
    | explain => exact (Terminal.failsOnly_verbosity _).bind fun _ => failsOnly_ok _
    | toArray => exact failsOnly_ok _

theorem through_begin (findLimit : Int) (collection label : String) (given : List Expr)
    (call : Position) : Through given (begin findLimit collection label given call) := by
  unfold begin
  split
  · rename_i operation _
    refine (CallArguments.through_callArguments _ _ given call).bind fun arguments => ?_
    exact (operation.failsOnly_fields arguments collection findLimit).bind fun _ => failsOnly_ok _
  · split
    · exact through_error (Failure.nameless_chain _)
    · exact through_error (Failure.nameless_unsupported _ _)

theorem through_next (collection : String) (state : State) (label : String) (given : List Expr)
    (call : Position) : Through given (next collection state label given call) := by
  unfold next
  split
  · rename_i method _ _
    rw [apply_eq]
    refine (CallArguments.through_callArguments _ _ given call).bind fun arguments => ?_
    exact failsOnly_effect state.fields arguments method
  · exact through_error (Failure.nameless_chain _)
  · exact through_error (Failure.nameless_chain _)
  · split
    · exact through_error (Failure.nameless_chain _)
    · exact through_error (Failure.nameless_unsupported _ _)
  · exact through_error (Failure.nameless_unsupported _ _)

end Command

def Link.given : Link → List Expr
  | .name _ => []
  | .call given _ => given

namespace Command

open Link

theorem through_finish (collection : String) (state : State) (links : List Link) :
    Through (links.flatMap Link.given) (finish collection state links) := by
  fun_induction finish collection state links with
  | case1 => exact through_nil (failsOnly_ok _)
  | case2 => exact through_error (Failure.nameless_chain _)
  | case3 state label given call rest induction =>
      exact (through_next collection state label given call).append induction
  | case4 => exact through_error (Failure.nameless_chain _)

theorem flatMap_given_name (names : List String) : (names.map Link.name).flatMap given = [] := by
  induction names with
  | nil => rfl
  | cons label rest induction => exact induction

/-- A chain is read by evaluating all of its arguments. -/
theorem through_ofLinks (findLimit : Int) (links : List Link) :
    Through (links.flatMap Link.given) (ofLinks findLimit links) := by
  have parts := append_splitAtCall links
  unfold ofLinks
  split
  rename_i names behind split
  rw [split] at parts
  split
  · exact through_error (Failure.nameless_chain _)
  · exact through_error (Failure.nameless_unsupported _ _)
  · rename_i given call rest operation collection _ _
    have all := (through_begin findLimit (".".intercalate collection.reverse) operation given
      call).append fun state => through_finish (".".intercalate collection.reverse) state rest
    have arguments : links.flatMap Link.given = given ++ rest.flatMap Link.given := by
      rw [← parts, List.flatMap_append, flatMap_given_name]
      rfl
    exact arguments ▸ all
  · exact through_error (Failure.nameless_chain _)

end Command

/-! ## From an expression to its chain -/

namespace Link

theorem through_computedName (key : Expr) : Through [key] (computedName key) := by
  refine (through_evaluate key).bind fun value => ?_
  split
  · exact failsOnly_ok _
  · exact failsOnly_error (Failure.nameless_misuse _ _)

/-- The links of an expression start behind `db`. Its keys have been evaluated for them,
and its arguments are theirs. -/
theorem ofExpr_eq_ok {following links : List Link} {expr : Expr}
    (found : ofExpr following expr = .ok links) :
    (∃ position, expr.root = .name position "db") ∧
      (∀ key ∈ expr.keys, ∃ meaning, key.meaning = .ok meaning) ∧
      links.flatMap given = expr.arguments ++ following.flatMap given := by
  fun_induction ofExpr following expr with
  | case1 following position owner label induction => exact induction found
  | case2 following position owner key induction =>
      rcases bind_eq_ok.mp found with ⟨label, computed, more⟩
      rcases induction label more with ⟨root, keys, arguments⟩
      refine ⟨root, fun other member => ?_, arguments⟩
      rcases List.mem_cons.mp member with rfl | inner
      · exact (through_computedName _).1 label computed _ List.mem_cons_self
      · exact keys other inner
  | case3 following position callee given induction =>
      rcases induction found with ⟨root, keys, all⟩
      refine ⟨root, keys, ?_⟩
      rw [all, Expr.arguments, List.append_assoc]
      rfl
  | case4 following position =>
      cases found
      refine ⟨⟨position, rfl⟩, ?_, rfl⟩
      intro key member
      cases member
  | case5 => cases found
  | case6 => cases found
  | case7 => cases found

/-- Links that cannot be had for a name fail over the root, or over a key. -/
theorem ofExpr_eq_error {following : List Link} {expr : Expr} {failure : Failure}
    (failed : ofExpr following expr = .error failure) (named : ¬failure.Nameless) :
    ∃ part : Expr, part.Occurs expr ∧ part.meaning = .error failure := by
  fun_induction ofExpr following expr with
  | case1 following position owner label induction =>
      rcases induction failed with ⟨part, occurs, denied⟩
      exact ⟨part, .inside List.mem_cons_self occurs, denied⟩
  | case2 following position owner key induction =>
      rcases bind_eq_error.mp failed with first | ⟨label, _, more⟩
      · rcases (through_computedName key).2 failure first named with ⟨part, member, denied⟩
        exact ⟨part, .inside (List.mem_cons_of_mem _ member) .here, denied⟩
      · rcases induction label more with ⟨part, occurs, denied⟩
        exact ⟨part, .inside List.mem_cons_self occurs, denied⟩
  | case3 following position callee given induction =>
      rcases induction failed with ⟨part, occurs, denied⟩
      exact ⟨part, .inside List.mem_cons_self occurs, denied⟩
  | case4 => cases failed
  | case5 =>
      cases failed
      exact absurd (Failure.nameless_chain _) named
  | case6 following position label notRoot unknown =>
      cases failed
      refine ⟨.name position label, .here, ?_⟩
      rw [meaning]
      split
      · rename_i known
        exact absurd (known ▸ rfl) unknown
      · rfl
  | case7 =>
      cases failed
      exact absurd (Failure.nameless_chain _) named

end Link

/-! ## Whole texts -/

theorem Value.contained_of_ofShell {limit : Nat} {text : String} {value : Value}
    (found : ofShell limit text = .ok value) :
    ∃ parsed, Expr.parse limit text = .ok parsed ∧ ∀ expr ∈ parsed, expr.Contained := by
  rcases bind_eq_ok.mp found with ⟨parsed, read, evaluated⟩
  refine ⟨parsed, read, fun expr present => ?_⟩
  cases present
  exact contained_of_evaluate evaluated

theorem Command.contained_of_ofShell {limit : Nat} {findLimit : Int} {text : String}
    {fields : Fields Value} (found : ofShell limit findLimit text = .ok fields) :
    ∃ expr, Expr.parse limit text = .ok (some expr) ∧
      (∃ position, expr.root = .name position "db") ∧
      ∀ part ∈ expr.keys ++ expr.arguments, part.Contained := by
  rcases bind_eq_ok.mp found with ⟨parsed, read, more⟩
  cases parsed with
  | none => cases more
  | some expr =>
      rcases bind_eq_ok.mp more with ⟨links, linked, made⟩
      rcases Link.ofExpr_eq_ok linked with ⟨root, keys, arguments⟩
      refine ⟨expr, read, root, fun part member => ?_⟩
      rcases List.mem_append.mp member with isKey | isArgument
      · rcases keys part isKey with ⟨meaning, denoted⟩
        exact contained_of_meaning denoted
      · have given : part ∈ links.flatMap Link.given := by
          rw [arguments]
          exact List.mem_append_left _ isArgument
        rcases (through_ofLinks findLimit links).1 fields made part given with ⟨meaning, denoted⟩
        exact contained_of_meaning denoted

/-- A failure over a name of a part is one of the whole. -/
theorem Expr.Unbound.of_part {part whole : Expr} {position : Position} {label : String}
    (unbound : part.Unbound position label) (occurs : part.Occurs whole) :
    whole.Unbound position label :=
  ⟨unbound.1.trans occurs, unbound.2⟩

theorem named_of_family {failure : Failure} (family : failure.family = .referenceError) :
    ¬failure.Nameless :=
  fun nameless => nameless family

/-- A text that is no expression fails, but not over a name. -/
theorem Expr.nameless_of_parse {limit : Nat} {text : String} {failure : Failure}
    (failed : parse limit text = .error failure) : failure.Nameless := by
  intro family
  have refused := failsOnly_parse limit text failure failed
  cases refused.symm.trans family

theorem Value.unbound_of_ofShell {limit : Nat} {text : String} {failure : Failure}
    (failed : ofShell limit text = .error failure) (named : ¬failure.Nameless) :
    ∃ expr position label, Expr.parse limit text = .ok (some expr) ∧
      failure = .undefined label position ∧ expr.Unbound position label := by
  rcases bind_eq_error.mp failed with unread | ⟨parsed, read, more⟩
  · exact absurd (Expr.nameless_of_parse unread) named
  · cases parsed with
    | none => cases more
    | some expr =>
        rcases unbound_of_evaluate more named with ⟨position, label, equal, unbound⟩
        exact ⟨expr, position, label, read, equal, unbound⟩

theorem Command.unbound_of_ofShell {limit : Nat} {findLimit : Int} {text : String}
    {failure : Failure} (failed : ofShell limit findLimit text = .error failure)
    (named : ¬failure.Nameless) :
    ∃ expr position label, Expr.parse limit text = .ok (some expr) ∧
      failure = .undefined label position ∧ expr.Unbound position label := by
  rcases bind_eq_error.mp failed with unread | ⟨parsed, read, more⟩
  · exact absurd (Expr.nameless_of_parse unread) named
  cases parsed with
  | none =>
      cases more
      exact absurd (Failure.nameless_chain _) named
  | some expr =>
      have denied : ∃ part : Expr, part.Occurs expr ∧ part.meaning = .error failure := by
        rcases bind_eq_error.mp more with unlinked | ⟨links, linked, unmade⟩
        · exact Link.ofExpr_eq_error unlinked named
        · rcases (through_ofLinks findLimit links).2 failure unmade named with
            ⟨part, member, denied⟩
          rw [(Link.ofExpr_eq_ok linked).2.2, List.flatMap_nil, List.append_nil] at member
          exact ⟨part, occurs_of_mem_arguments member, denied⟩
      rcases denied with ⟨part, occurs, denied⟩
      rcases unbound_of_meaning denied named with ⟨position, label, equal, unbound⟩
      exact ⟨expr, position, label, read, equal, unbound.of_part occurs⟩

/-- Names, properties and calls of whatever is accepted, and the place of whatever is
refused over a name. -/
theorem contained_or_unbound (limit : Nat) (findLimit : Int) :
    (∀ expr value, Expr.evaluate expr = .ok value → expr.Contained) ∧
      (∀ text value, Value.ofShell limit text = .ok value →
        ∃ parsed, Expr.parse limit text = .ok parsed ∧ ∀ expr ∈ parsed, expr.Contained) ∧
      (∀ text fields, Command.ofShell limit findLimit text = .ok fields →
        ∃ expr, Expr.parse limit text = .ok (some expr) ∧
          (∃ position, expr.root = .name position "db") ∧
          ∀ part ∈ expr.keys ++ expr.arguments, part.Contained ∧
            ∀ position, ¬(Expr.name position "db").Occurs part) ∧
      (∀ text failure, (Value.ofShell limit text = .error failure ∨
          Command.ofShell limit findLimit text = .error failure) →
        failure.family = .referenceError →
        ∃ expr position label, Expr.parse limit text = .ok (some expr) ∧
          failure = .undefined label position ∧ expr.Unbound position label) := by
  refine ⟨fun expr value => contained_of_evaluate, fun text value => Value.contained_of_ofShell,
    ?_, ?_⟩
  · intro text fields found
    rcases Command.contained_of_ofShell found with ⟨expr, read, root, parts⟩
    refine ⟨expr, read, root, fun part member => ⟨parts part member, fun position occurs => ?_⟩⟩
    have bound : "db" ∈ boundNames := parts part member _ occurs
    exact absurd bound (by decide)
  · intro text failure failed family
    rcases failed with failed | failed
    · exact Value.unbound_of_ofShell failed (named_of_family family)
    · exact Command.unbound_of_ofShell failed (named_of_family family)

theorem Value.ofShell_shadowed :
    ofShell 9 "[{a: NaN, a: null}]" = .ok (.array [.document [("a", .null)]]) := by cbv

set_option maxRecDepth 2000 in
theorem Command.ofShell_computed :
    ofShell 9 3 "db[\"c\"].insertOne({a: NaN})" =
      .ok [("insert", .string "c"), ("documents", .array [.document [("a", .null)]])] := by cbv

theorem Command.ofShell_unboundKey :
    ofShell 9 3 "db[f]" = .error (.undefined "f" ⟨1, 4⟩) := by cbv

/-- A field that comes again, a computed name with an argument, and a key over which the
chain is refused. -/
theorem contained_or_unbound_computed :
    Value.ofShell 9 "[{a: NaN, a: null}]" = .ok (.array [.document [("a", .null)]]) ∧
      (∃ parsed, Expr.parse 9 "[{a: NaN, a: null}]" = .ok parsed ∧
        ∀ expr ∈ parsed, expr.Contained) ∧
      Command.ofShell 9 3 "db[\"c\"].insertOne({a: NaN})" =
        .ok [("insert", .string "c"), ("documents", .array [.document [("a", .null)]])] ∧
      (∃ expr, Expr.parse 9 "db[\"c\"].insertOne({a: NaN})" = .ok (some expr) ∧
        (∃ position, expr.root = .name position "db") ∧
        ∀ part ∈ expr.keys ++ expr.arguments, part.Contained ∧
          ∀ position, ¬(Expr.name position "db").Occurs part) ∧
      Command.ofShell 9 3 "db[f]" = .error (.undefined "f" ⟨1, 4⟩) ∧
      ∃ expr position label, Expr.parse 9 "db[f]" = .ok (some expr) ∧
        Failure.undefined "f" ⟨1, 4⟩ = .undefined label position ∧ expr.Unbound position label := by
  rcases contained_or_unbound 9 3 with ⟨_, values, commands, names⟩
  exact ⟨Value.ofShell_shadowed, values _ _ Value.ofShell_shadowed, Command.ofShell_computed,
    commands _ _ Command.ofShell_computed, Command.ofShell_unboundKey,
    names _ _ (.inr Command.ofShell_unboundKey) rfl⟩

end DocShell
