import DocShell.Command.Reading
import DocShell.Proofs.Failure.Bind

namespace DocShell

/-! # Steps of a chain

The first call of a chain is an operation, every later one is a method on a cursor. A step
that succeeds has evaluated its arguments, no more than it takes, and does to the command
what its operation or method does with them. -/

theorem Operation.name_of_ofName? {label : String} {operation : Operation}
    (found : ofName? label = some operation) : operation.name = label := by
  unfold ofName? at found
  exact of_decide_eq_true (List.find?_some found :)

/-- A chain is the names before its first call and the links from there on. -/
theorem Link.append_splitAtCall (links : List Link) :
    (splitAtCall links).1.map .name ++ (splitAtCall links).2 = links := by
  fun_induction splitAtCall links with
  | case1 label rest labels behind split induction =>
      rw [split] at induction
      simp only [List.map_cons, List.cons_append, induction]
  | case2 links => rfl

namespace Method

theorem name_of_ofName? {label : String} {method : Method} (found : ofName? label = some method) :
    method.name = label := by
  unfold ofName? at found
  exact of_decide_eq_true (List.find?_some found :)

def arity : Method → Nat
  | .terminal .toArray => 0
  | _ => 1

end Method

/-! ## Arguments -/

inductive Value.IsOptional : Value → Option (Fields Value) → Prop
  | absent : IsOptional .absent none
  | null : IsOptional .null none
  | document (fields : Fields Value) : IsOptional (.document fields) (some fields)

theorem Value.IsOptional.eq_document {value : Value} {fields : Fields Value}
    (optional : value.IsOptional (some fields)) : value = .document fields := by
  cases optional
  rfl

namespace Argument

variable {argument : Argument} {who what : String}

theorem document_eq_ok_iff {fields : Fields Value} :
    argument.document who what = .ok fields ↔ argument.value = .document fields := by
  rw [document]
  cases argument.value with
  | document given => rw [Except.ok.injEq, Value.document.injEq]
  | _ => constructor <;> rintro ⟨⟩

theorem optionalDocument_eq_ok_iff {fields : Option (Fields Value)} :
    argument.optionalDocument who what = .ok fields ↔ argument.value.IsOptional fields := by
  unfold optionalDocument
  split
  · rename_i value
    rw [value, Except.ok.injEq]
    refine ⟨fun equal => equal ▸ .absent, fun optional => ?_⟩
    cases optional
    rfl
  · rename_i value
    rw [value, Except.ok.injEq]
    refine ⟨fun equal => equal ▸ .null, fun optional => ?_⟩
    cases optional
    rfl
  · rename_i present other
    rw [bind_pure_eq_ok]
    constructor
    · rintro ⟨given, opened, rfl⟩
      rw [document_eq_ok_iff.mp opened]
      exact .document given
    · intro optional
      cases fields with
      | none =>
          generalize same : argument.value = value at optional
          cases optional with
          | absent => exact absurd same present
          | null => exact absurd same other
      | some given => exact ⟨given, document_eq_ok_iff.mpr optional.eq_document, rfl⟩

end Argument

namespace CallArguments

theorem evaluate_eq_ok_iff {who : String} {limit : Nat} {given : List Expr} {call : Position}
    {arguments : CallArguments} : evaluate who limit given call = .ok arguments ↔
      given.length ≤ limit ∧ ∃ all, evaluateAll given = .ok all ∧ ⟨call, all⟩ = arguments := by
  unfold evaluate
  split
  · rename_i several
    refine iff_of_false (fun found => ?_) fun found => Nat.not_lt.mpr found.1 several
    cases found
  · rename_i few
    rw [bind_pure_eq_ok]
    exact (and_iff_right (Nat.not_lt.mp few)).symm

theorem evaluateAll_cons_eq_ok_iff {expr : Expr} {rest : List Expr} {all : List Argument} :
    evaluateAll (expr :: rest) = .ok all ↔ ∃ value, expr.evaluate = .ok value ∧
      ∃ behind, evaluateAll rest = .ok behind ∧ ⟨value, expr.position, none⟩ :: behind = all := by
  rw [evaluateAll, bind_eq_ok]
  simp only [bind_pure_eq_ok]

end CallArguments

/-! ## Steps -/

namespace Command

def effect (fields : Fields Value) (arguments : CallArguments) : Method → Except Failure State
  | .modifier modifier => do
      let value ← modifier.value (arguments.nth 0)
      return ⟨Fields.insert modifier.field value fields, .cursor⟩
  | .terminal .explain => do
      let verbosity ← Terminal.verbosity (arguments.nth 0)
      return ⟨("explain", .document fields) :: verbosity, .ended .explain⟩
  | .terminal .toArray => .ok ⟨fields, .ended .toArray⟩

theorem apply_eq (fields : Fields Value) (method : Method) (given : List Expr) (call : Position) :
    apply fields method given call =
      CallArguments.evaluate method.name method.arity given call >>= fun arguments =>
        effect fields arguments method := by
  rcases method with modifier | terminal
  · rfl
  · cases terminal <;> rfl

variable {findLimit : Int} {collection label : String} {given : List Expr} {call : Position}
  {state after : State}

theorem begin_eq_ok (started : begin findLimit collection label given call = .ok state) :
    ∃ operation arguments fields, label = operation.name ∧
      CallArguments.evaluate label operation.arity given call = .ok arguments ∧
      operation.fields collection findLimit arguments = .ok fields ∧
      state = ⟨fields, if operation.givesCursor then .cursor else .done operation⟩ := by
  unfold begin at started
  split at started
  · rename_i operation named
    rcases bind_eq_ok.mp started with ⟨arguments, evaluated, more⟩
    rcases bind_pure_eq_ok.mp more with ⟨fields, made, rfl⟩
    exact ⟨operation, arguments, fields, (Operation.name_of_ofName? named).symm, evaluated, made,
      rfl⟩
  · split at started <;> cases started

theorem next_eq_ok (stepped : next collection state label given call = .ok after) :
    ∃ method arguments, label = method.name ∧ state.stage = .cursor ∧
      CallArguments.evaluate label method.arity given call = .ok arguments ∧
      effect state.fields arguments method = .ok after := by
  unfold next at stepped
  split at stepped
  · rename_i method named stage
    rw [apply_eq] at stepped
    rcases bind_eq_ok.mp stepped with ⟨arguments, evaluated, done⟩
    have equal := Method.name_of_ofName? named
    exact ⟨method, arguments, equal.symm, stage, equal ▸ evaluated, done⟩
  · cases stepped
  · cases stepped
  · split at stepped <;> cases stepped
  · cases stepped

/-- A chain that is a command names a collection and calls an operation on it, and the rest
of the links follows on that call. -/
theorem ofLinks_eq_ok {links : List Link} {made : Fields Value}
    (found : ofLinks findLimit links = .ok made) :
    ∃ collection label given call rest state, collection ≠ [] ∧
      links = (collection ++ [label]).map .name ++ .call given call :: rest ∧
      begin findLimit (".".intercalate collection) label given call = .ok state ∧
      finish (".".intercalate collection) state rest = .ok made := by
  have parts := Link.append_splitAtCall links
  unfold ofLinks at found
  split at found
  rename_i names behind split
  rw [split] at parts
  split at found
  · cases found
  · cases found
  · rename_i given call rest label collection several reversed
    rcases bind_eq_ok.mp found with ⟨state, started, finished⟩
    -- a single name before the call has been refused as an operation on the root
    have named : collection.reverse ≠ [] := by
      intro empty
      rw [List.reverse_eq_nil_iff] at empty
      exact several empty
    have inOrder : names = collection.reverse ++ [label] := by
      rw [← List.reverse_reverse names, reversed, List.reverse_cons]
    exact ⟨collection.reverse, label, given, call, rest, state, named, inOrder ▸ parts.symm,
      started, finished⟩
  · cases found

end Command

end DocShell
