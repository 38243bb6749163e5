import DocShell.Bridge.Document
import DocShell.Command.Method

namespace DocShell

/-! # Reading commands

The names up to the first call are a collection, joined by points, and an
operation on it. Only a search gives a cursor, and only on a cursor may further
calls follow, until one of them ends the chain. -/

namespace Command

inductive Stage
  | cursor
  | done (operation : Operation)
  | ended (last : Terminal)
deriving DecidableEq, Repr

structure State where
  fields : Fields Value
  stage : Stage

def begin (findLimit : Int) (collection name : String) (given : List Expr) (call : Position) :
    Except Failure State :=
  match Operation.ofName? name with
  | some operation => do
      let arguments ← CallArguments.evaluate name operation.arity given call
      let fields ← operation.fields collection findLimit arguments
      return ⟨fields, if operation.givesCursor then .cursor else .done operation⟩
  | none =>
      if (Method.ofName? name).isSome then .error (.chain (.noFind name))
      else .error (.unsupported collection name)

def apply (fields : Fields Value) (method : Method) (given : List Expr) (call : Position) :
    Except Failure State :=
  match method with
  | .modifier modifier => do
      let arguments ← CallArguments.evaluate modifier.name 1 given call
      let value ← modifier.value (arguments.nth 0)
      return ⟨Fields.insert modifier.field value fields, .cursor⟩
  | .terminal .explain => do
      let arguments ← CallArguments.evaluate "explain" 1 given call
      let verbosity ← Terminal.verbosity (arguments.nth 0)
      return ⟨("explain", .document fields) :: verbosity, .ended .explain⟩
  | .terminal .toArray => do
      let _ ← CallArguments.evaluate "toArray" 0 given call
      return ⟨fields, .ended .toArray⟩

/-- The state behind one more call, `name(given)`. Whether it may follow at all is
settled before its arguments are looked at. -/
def next (collection : String) (state : State) (name : String) (given : List Expr)
    (call : Position) : Except Failure State :=
  match Method.ofName? name, state.stage with
  | some method, .cursor => apply state.fields method given call
  | some _, .done operation => .error (.chain (.afterOperation name operation.name))
  | some _, .ended last => .error (.chain (.afterEnd name last.name))
  | none, .cursor =>
      if (Operation.ofName? name).isSome then .error (.chain (.secondOperation name))
      else .error (.unsupported (collection ++ " cursor") name)
  | none, _ => .error (.unsupported (collection ++ " cursor") name)

def finish (collection : String) (state : State) : List Link → Except Failure (Fields Value)
  | [] => .ok state.fields
  | .call _ _ :: _ => .error (.chain .calledResult)
  | .name label :: .call given call :: rest => do
      finish collection (← next collection state label given call) rest
  | .name label :: _ => .error (.chain (.notCalled label))

def ofLinks (findLimit : Int) (links : List Link) : Except Failure (Fields Value) :=
  let (names, behind) := Link.splitAtCall links
  match behind, names.reverse with
  | .call _ _ :: _, [] => .error (.chain .calledRoot)
  | .call _ _ :: _, [operation] => .error (.unsupported "db" operation)
  | .call given call :: rest, operation :: collection => do
      let collection := ".".intercalate collection.reverse
      finish collection (← begin findLimit collection operation given call) rest
  | _, _ => .error (.chain .noCall)

def defaultFindLimit : Int := 10

def ofShell (limit : Nat) (findLimit : Int) (text : String) : Except Failure (Fields Value) := do
  match ← Expr.parse limit text with
  | some expr => ofLinks findLimit (← Link.ofExpr [] expr)
  | none => .error (.chain .notChain)

end Command

/-! ## Shell text as JSON text -/

def Value.jsonTextOfShell (text : String) : Except Failure String := do
  return (← Value.ofShell Value.defaultLimit text).jsonText

def Command.jsonTextOfShell (text : String) : Except Failure String := do
  let fields ← Command.ofShell Value.defaultLimit Command.defaultFindLimit text
  return (Value.document fields).jsonText

end DocShell
