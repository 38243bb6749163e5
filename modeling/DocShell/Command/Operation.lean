import DocShell.Command.Arguments

namespace DocShell

/-! # Operations on a collection

The first call of a chain. Each operation makes the fields of its command out of
the collection's name and its arguments. -/

inductive Operation
  | find
  | findOne
  | insertOne
  | insertMany
  | updateOne
  | updateMany
  | deleteOne
  | deleteMany
  | getIndexes
deriving DecidableEq, Repr

namespace Operation

def all : List Operation :=
  [.find, .findOne, .insertOne, .insertMany, .updateOne, .updateMany, .deleteOne, .deleteMany,
    .getIndexes]

def name : Operation → String
  | .find => "find"
  | .findOne => "findOne"
  | .insertOne => "insertOne"
  | .insertMany => "insertMany"
  | .updateOne => "updateOne"
  | .updateMany => "updateMany"
  | .deleteOne => "deleteOne"
  | .deleteMany => "deleteMany"
  | .getIndexes => "getIndexes"

def ofName? (name : String) : Option Operation := all.find? (·.name = name)

def arity : Operation → Nat
  | .find | .findOne => 2
  | .updateOne | .updateMany => 3
  | .insertOne | .insertMany | .deleteOne | .deleteMany => 1
  | .getIndexes => 0

def givesCursor : Operation → Bool
  | .find | .findOne => true
  | _ => false

def optionalField (name : String) : Option (Fields Value) → Fields Value
  | some fields => [(name, .document fields)]
  | none => []

def findFields (who collection : String) (limit : Int) (arguments : CallArguments) :
    Except Failure (Fields Value) := do
  let filter ← (arguments.nth 0).optionalDocument who "filter"
  let projection ← (arguments.nth 1).optionalDocument who "projection"
  return ("find", .string collection) :: optionalField "filter" filter ++
    ("limit", .number (Double.ofInt limit)) :: optionalField "projection" projection

def insertFields (collection : String) (documents : List Value) : Fields Value :=
  [("insert", .string collection), ("documents", .array documents)]

def documents (argument : Argument) (who : String) : Except Failure (List Value) :=
  let refusal := argument.unexpected who "an array of documents"
  match argument.value with
  | .array items => if items.all (·.fields?.isSome) then .ok items else .error refusal
  | _ => .error refusal

def update (argument : Argument) (who : String) : Except Failure Value :=
  match argument.value with
  | .document fields => .ok (.document fields)
  | .array items => .ok (.array items)
  | _ => .error (argument.unexpected who "an update document or pipeline")

def updateFields (who collection : String) (multi : Bool) (arguments : CallArguments) :
    Except Failure (Fields Value) := do
  let filter ← (arguments.nth 0).document who "filter"
  let update ← update (arguments.nth 1) who
  let options ← (arguments.nth 2).optionalDocument who "options"
  let upsert := match options.bind (Fields.get? "upsert") with
    | some value => [("upsert", value)]
    | none => []
  let statement := ("q", .document filter) :: ("u", update) :: upsert ++ [("multi", .bool multi)]
  return [("update", .string collection), ("updates", .array [.document statement])]

def deleteFields (who collection : String) (limit : Int) (arguments : CallArguments) :
    Except Failure (Fields Value) := do
  let filter ← (arguments.nth 0).document who "filter"
  let statement := [("q", .document filter), ("limit", .number (Double.ofInt limit))]
  return [("delete", .string collection), ("deletes", .array [.document statement])]

/-- The command of an operation. A search returns at most `findLimit` documents
unless the chain says otherwise. -/
def fields (operation : Operation) (collection : String) (findLimit : Int)
    (arguments : CallArguments) : Except Failure (Fields Value) :=
  let who := operation.name
  match operation with
  | .find => findFields who collection findLimit arguments
  | .findOne => findFields who collection 1 arguments
  | .insertOne => do
      let document ← (arguments.nth 0).document who "document"
      return insertFields collection [.document document]
  | .insertMany => do return insertFields collection (← documents (arguments.nth 0) who)
  | .updateOne => updateFields who collection false arguments
  | .updateMany => updateFields who collection true arguments
  | .deleteOne => deleteFields who collection 1 arguments
  | .deleteMany => deleteFields who collection 0 arguments
  | .getIndexes => .ok [("listIndexes", .string collection)]

end Operation

end DocShell
