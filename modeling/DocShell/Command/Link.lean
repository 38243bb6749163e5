import DocShell.Evaluation.Meaning

namespace DocShell

/-! # Chains of names and calls

A command is recognised by its form and not evaluated: from the root `db` on,
each link is a name or a call. Only the parts in brackets and the arguments are
expressions with a meaning of their own. -/

inductive Link
  | name (name : String)
  | call (arguments : List Expr) (position : Position)

namespace Link

def computedName (key : Expr) : Except Failure String := do
  match ← key.evaluate with
  | .string text => .ok text
  | value => .error (.misuse (.propertyName value.typeName) key.position)

/-- The links of an expression, innermost first, in front of those that follow it.
They are examined from the outside in. -/
def ofExpr (following : List Link) : Expr → Except Failure (List Link)
  | .member _ owner label => ofExpr (.name label :: following) owner
  | .index _ owner key => do
      let label ← computedName key
      ofExpr (.name label :: following) owner
  | .call position callee given => ofExpr (.call given position :: following) callee
  | .name position label =>
      if label = "db" then .ok following
      else if (Meaning.ofName? label).isSome then .error (.chain .notChain)
      else .error (.undefined label position)
  | _ => .error (.chain .notChain)

def splitAtCall : List Link → List String × List Link
  | .name label :: rest =>
      let (labels, links) := splitAtCall rest
      (label :: labels, links)
  | links => ([], links)

theorem splitAtCall_names (names : List String) (given : List Expr) (call : Position)
    (rest : List Link) :
    splitAtCall (names.map .name ++ .call given call :: rest) =
      (names, .call given call :: rest) := by
  induction names with
  | nil => rfl
  | cons name names induction => rw [List.map_cons, List.cons_append, splitAtCall, induction]

end Link

end DocShell
