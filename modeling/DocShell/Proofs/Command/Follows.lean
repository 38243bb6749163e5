import DocShell.Command.Reading
import DocShell.Proofs.Command.Chain
import DocShell.Proofs.Evaluation.Follows
import DocShell.Proofs.Expr.Follows

namespace DocShell

/-! # Commands follow

A chain hands the places of its calls and arguments on to failures and to nothing else. So
the value or the command of a text follows a change of places and of room. -/

variable {change : Change}

/-! ## Arguments -/

def CallArguments.moved (move : Position → Position) (arguments : CallArguments) : CallArguments :=
  ⟨move arguments.call, arguments.given.map (Argument.moved move)⟩

namespace CallArguments

theorem follows_evaluateAll (given : List Expr) :
    Follows change (List.map (Argument.moved change.move)) (evaluateAll given)
      (evaluateAll (given.map change.expr)) := by
  induction given with
  | nil => exact follows_ok _
  | cons expr rest induction =>
      refine (Expr.follows_evaluate expr).bind fun value => induction.bind_pure fun others => ?_
      rw [Change.expr, Expr.position_moved]
      rfl

theorem follows_callArguments (who : String) (limit : Nat) (given : List Expr) (call : Position) :
    Follows change (CallArguments.moved change.move) (evaluate who limit given call)
      (evaluate who limit (given.map change.expr) (change.move call)) := by
  rw [evaluate, evaluate, List.length_map]
  exact follows_ite (follows_error _) ((follows_evaluateAll given).bind_pure fun _ => rfl)

theorem nth_moved (arguments : CallArguments) (place : Nat) :
    (arguments.moved change.move).nth place = (arguments.nth place).moved change.move := by
  rw [nth, nth, moved, List.getElem?_map]
  cases arguments.given[place]? <;> rfl

end CallArguments

/-! ## What is done with arguments -/

namespace Argument

variable (argument : Argument)

theorem follows_document (who what : String) :
    Follows change id (argument.document who what)
      ((argument.moved change.move).document who what) := by
  rcases argument with ⟨value, position, spelling⟩
  cases value with
  | document fields => exact follows_ok _
  | _ => exact follows_error _

theorem follows_optionalDocument (who what : String) :
    Follows change id (argument.optionalDocument who what)
      ((argument.moved change.move).optionalDocument who what) := by
  have document : Follows change id _ _ := argument.follows_document who what
  rcases argument with ⟨value, position, spelling⟩
  cases value with
  | absent => exact follows_ok _
  | null => exact follows_ok _
  | _ => exact document.bind_pure fun _ => rfl

end Argument

namespace Operation

open Argument

theorem follows_documents (argument : Argument) (who : String) :
    Follows change id (documents argument who) (documents (argument.moved change.move) who) := by
  rcases argument with ⟨value, position, spelling⟩
  cases value with
  | array items => exact follows_ite (follows_ok _) (follows_error _)
  | _ => exact follows_error _

theorem follows_update (argument : Argument) (who : String) :
    Follows change id (update argument who) (update (argument.moved change.move) who) := by
  rcases argument with ⟨value, position, spelling⟩
  cases value with
  | document fields => exact follows_ok _
  | array items => exact follows_ok _
  | _ => exact follows_error _

variable (arguments : CallArguments)

theorem follows_findFields (who collection : String) (limit : Int) :
    Follows change id (findFields who collection limit arguments)
      (findFields who collection limit (arguments.moved change.move)) := by
  simp only [findFields, CallArguments.nth_moved]
  exact (follows_optionalDocument _ _ _).bind fun _ =>
    (follows_optionalDocument _ _ _).bind_pure fun _ => rfl

theorem follows_updateFields (who collection : String) (multi : Bool) :
    Follows change id (updateFields who collection multi arguments)
      (updateFields who collection multi (arguments.moved change.move)) := by
  simp only [updateFields, CallArguments.nth_moved]
  exact (follows_document _ _ _).bind fun _ => (follows_update _ _).bind fun _ =>
    (follows_optionalDocument _ _ _).bind_pure fun _ => rfl

theorem follows_deleteFields (who collection : String) (limit : Int) :
    Follows change id (deleteFields who collection limit arguments)
      (deleteFields who collection limit (arguments.moved change.move)) := by
  simp only [deleteFields, CallArguments.nth_moved]
  exact (follows_document _ _ _).bind_pure fun _ => rfl

theorem follows_fields (operation : Operation) (collection : String) (findLimit : Int) :
    Follows change id (operation.fields collection findLimit arguments)
      (operation.fields collection findLimit (arguments.moved change.move)) := by
  cases operation with
  | find => exact follows_findFields arguments _ _ _
  | findOne => exact follows_findFields arguments _ _ _
  | insertOne =>
      simp only [fields, CallArguments.nth_moved]
      exact (follows_document _ _ _).bind_pure fun _ => rfl
  | insertMany =>
      simp only [fields, CallArguments.nth_moved]
      exact (follows_documents _ _).bind_pure fun _ => rfl
  | updateOne => exact follows_updateFields arguments _ _ _
  | updateMany => exact follows_updateFields arguments _ _ _
  | deleteOne => exact follows_deleteFields arguments _ _ _
  | deleteMany => exact follows_deleteFields arguments _ _ _
  | getIndexes => exact follows_ok _

end Operation

theorem Modifier.follows_value (modifier : Modifier) (argument : Argument) :
    Follows change id (modifier.value argument) (modifier.value (argument.moved change.move)) := by
  cases modifier with
  | sort => exact (argument.follows_document _ _).bind_pure fun _ => rfl
  | project => exact (argument.follows_document _ _).bind_pure fun _ => rfl
  | _ =>
      rcases argument with ⟨value, position, spelling⟩
      cases value
      all_goals first
        | exact follows_ok _
        | exact follows_error _

theorem Terminal.follows_verbosity (argument : Argument) :
    Follows change id (verbosity argument) (verbosity (argument.moved change.move)) := by
  rcases argument with ⟨value, position, spelling⟩
  cases value with
  | absent => exact follows_ok _
  | string text => exact follows_ite (follows_ok _) (follows_error _)
  | _ => exact follows_error _

/-! ## Chains -/

namespace Command

theorem follows_effect (fields : Fields Value) (arguments : CallArguments) (method : Method) :
    Follows change id (effect fields arguments method)
      (effect fields (arguments.moved change.move) method) := by
  rcases method with modifier | terminal
  · simp only [effect, CallArguments.nth_moved]
    exact (modifier.follows_value _).bind_pure fun _ => rfl
  · cases terminal with
    | explain =>
        simp only [effect, CallArguments.nth_moved]
        exact (Terminal.follows_verbosity _).bind_pure fun _ => rfl
    | toArray => exact follows_ok _

theorem follows_begin (findLimit : Int) (collection label : String) (given : List Expr)
    (call : Position) :
    Follows change id (begin findLimit collection label given call)
      (begin findLimit collection label (given.map change.expr) (change.move call)) := by
  unfold begin
  split
  · rename_i operation _
    refine (CallArguments.follows_callArguments _ _ given call).bind fun arguments => ?_
    exact (operation.follows_fields arguments collection findLimit).bind_pure fun _ => rfl
  · exact follows_ite (follows_error _) (follows_error _)

theorem follows_next (collection : String) (state : State) (label : String) (given : List Expr)
    (call : Position) :
    Follows change id (next collection state label given call)
      (next collection state label (given.map change.expr) (change.move call)) := by
  unfold next
  split
  · rename_i method _ _
    rw [apply_eq, apply_eq]
    refine (CallArguments.follows_callArguments _ _ given call).bind fun arguments => ?_
    exact follows_effect state.fields arguments method
  · exact follows_error _
  · exact follows_error _
  · exact follows_ite (follows_error _) (follows_error _)
  · exact follows_error _

end Command

namespace Link

def moved (change : Change) : Link → Link
  | .name label => .name label
  | .call given position => .call (given.map change.expr) (change.move position)

theorem follows_computedName (key : Expr) :
    Follows change id (computedName key) (computedName (change.expr key)) := by
  refine (Expr.follows_evaluate key).bind fun value => ?_
  rw [Change.expr, Expr.position_moved]
  cases value with
  | string text => exact follows_ok _
  | _ => exact follows_error _

theorem follows_ofExpr (following : List Link) (expr : Expr) :
    Follows change (List.map (moved change)) (ofExpr following expr)
      (ofExpr (following.map (moved change)) (change.expr expr)) := by
  induction expr using Expr.induction generalizing following with
  | node expr each =>
      cases expr with
      | member position owner label =>
          exact each owner List.mem_cons_self (.name label :: following)
      | index position owner key =>
          exact (follows_computedName key).bind fun label =>
            each owner List.mem_cons_self (.name label :: following)
      | call position callee given =>
          rw [Change.expr_call]
          exact each callee List.mem_cons_self (.call given position :: following)
      | name position label =>
          simp only [Change.expr, Expr.moved, ofExpr]
          exact follows_ite (follows_ok _) (follows_ite (follows_error _) (follows_error _))
      | _ => exact follows_error _

theorem splitAtCall_moved (links : List Link) :
    splitAtCall (links.map (moved change)) =
      ((splitAtCall links).1, (splitAtCall links).2.map (moved change)) := by
  fun_induction splitAtCall links with
  | case1 label rest labels behind split induction =>
      rw [split] at induction
      rw [List.map_cons, moved, splitAtCall, induction]
  | case2 links noName =>
      cases links with
      | nil => rfl
      | cons link rest =>
          cases link with
          | name label => exact absurd rfl (noName label rest)
          | call given position => rfl

end Link

namespace Command

open Link

theorem follows_finish (collection : String) (state : State) (links : List Link) :
    Follows change id (finish collection state links)
      (finish collection state (links.map (moved change))) := by
  fun_induction finish collection state links with
  | case1 => exact follows_ok _
  | case2 => exact follows_error _
  | case3 state label given call rest induction =>
      exact (follows_next collection state label given call).bind induction
  | case4 state label rest noCall =>
      cases rest with
      | nil => exact follows_error _
      | cons link rest =>
          cases link with
          | name other => exact follows_error _
          | call given call => exact absurd rfl (noCall given call rest)

theorem follows_ofLinks (findLimit : Int) (links : List Link) :
    Follows change id (ofLinks findLimit links) (ofLinks findLimit (links.map (moved change))) := by
  rw [ofLinks, ofLinks, splitAtCall_moved]
  rcases splitAtCall links with ⟨names, behind⟩
  generalize reversed : names.reverse = labels
  rcases behind with _ | ⟨link, rest⟩
  · simp only [reversed]
    exact follows_error _
  rcases link with label | ⟨given, call⟩
  · simp only [reversed]
    exact follows_error _
  simp only [reversed]
  rcases labels with _ | ⟨operation, _ | ⟨last, collection⟩⟩
  · exact follows_error _
  · exact follows_error _
  · exact (follows_begin findLimit _ operation given call).bind fun state =>
      follows_finish _ state rest

end Command

/-! ## Whole texts -/

def Value.ofParsed : Option Expr → Except Failure Value
  | some expr => expr.evaluate
  | none => .ok .absent

def Command.ofParsed (findLimit : Int) : Option Expr → Except Failure (Fields Value)
  | some expr => Link.ofExpr [] expr >>= ofLinks findLimit
  | none => .error (.chain .notChain)

theorem Value.ofShell_eq (limit : Nat) (text : String) :
    ofShell limit text = Expr.parse limit text >>= ofParsed := rfl

theorem Command.ofShell_eq (limit : Nat) (findLimit : Int) (text : String) :
    ofShell limit findLimit text = Expr.parse limit text >>= ofParsed findLimit := rfl

theorem Value.follows_ofParsed (parsed : Option Expr) :
    Follows change id (ofParsed parsed) (ofParsed (parsed.map change.expr)) := by
  cases parsed with
  | none => exact follows_ok _
  | some expr => exact expr.follows_evaluate

theorem Command.follows_ofParsed (findLimit : Int) (parsed : Option Expr) :
    Follows change id (ofParsed findLimit parsed) (ofParsed findLimit (parsed.map change.expr)) := by
  cases parsed with
  | none => exact follows_error _
  | some expr => exact (Link.follows_ofExpr [] expr).bind fun links => follows_ofLinks findLimit links

/-! ## More room -/

def Change.roomier (limit more : Nat) : Change := ⟨id, limit, more⟩

theorem Expr.follows_parse (limit more : Nat) (text : String) :
    Follows (.roomier limit more) (Option.map (Change.roomier limit more).expr)
      (parse limit text) (parse (limit + more) text) := by
  rw [parse, parse]
  cases Token.scan text with
  | error located => exact follows_error _
  | ok found =>
      rcases found with ⟨tokens, finish⟩
      have follows := follows_ofTokens (.roomier limit more) tokens finish
      have same : (Change.roomier limit more).tokens tokens = tokens := List.map_id tokens
      rwa [same] at follows

theorem Follows.eq_or_lacksRoom {α : Type} {limit more : Nat} {first second : Except Failure α}
    (follows : Follows (.roomier limit more) id first second) :
    LacksRoom limit first ∨ second = first := by
  rcases follows with same | lacking
  · right
    rw [same]
    cases first with
    | ok item => rfl
    | error failure => exact congrArg Except.error failure.moved_id
  · exact .inl lacking.2

/-- A text that is refused with some room for another reason than its depth, or accepted, is
treated no differently with more room. -/
theorem ofShell_of_le {limit more : Nat} (fits : limit ≤ more) (text : String) :
    ((∃ position, Value.ofShell limit text = .error (.unreadable (.tooDeep limit) position)) ∨
        Value.ofShell more text = Value.ofShell limit text) ∧
      ∀ findLimit : Int,
        (∃ position, Command.ofShell limit findLimit text =
          .error (.unreadable (.tooDeep limit) position)) ∨
        Command.ofShell more findLimit text = Command.ofShell limit findLimit text := by
  rcases Nat.exists_eq_add_of_le fits with ⟨extra, rfl⟩
  have parsed := Expr.follows_parse limit extra text
  refine ⟨?_, fun findLimit => ?_⟩
  · rw [Value.ofShell_eq, Value.ofShell_eq]
    exact (parsed.bind Value.follows_ofParsed).eq_or_lacksRoom
  · rw [Command.ofShell_eq, Command.ofShell_eq]
    exact (parsed.bind (Command.follows_ofParsed findLimit)).eq_or_lacksRoom

theorem Value.ofShell_unboundArgument :
    ofShell 5 "db.c.find(a)" = .error (.undefined "db" ⟨1, 1⟩) := by cbv

theorem Command.ofShell_unboundArgument :
    ofShell 5 10 "db.c.find(a)" = .error (.undefined "a" ⟨1, 11⟩) := by cbv

theorem ofShell_of_le_unboundArgument :
    5 ≤ 256 ∧ Value.ofShell 256 "db.c.find(a)" = .error (.undefined "db" ⟨1, 1⟩) ∧
      Command.ofShell 256 10 "db.c.find(a)" = .error (.undefined "a" ⟨1, 11⟩) := by
  have fits : 5 ≤ 256 := by decide
  have value := (ofShell_of_le fits "db.c.find(a)").1
  have command := (ofShell_of_le fits "db.c.find(a)").2 10
  rw [Value.ofShell_unboundArgument] at value
  rw [Command.ofShell_unboundArgument] at command
  refine ⟨fits, value.resolve_left ?_, command.resolve_left ?_⟩
  · rintro ⟨position, same⟩
    cases same
  · rintro ⟨position, same⟩
    cases same

end DocShell
