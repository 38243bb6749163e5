import DocShell.Expr.Basic

namespace DocShell.Expr

/-! # Parts of an expression

An expression nests through all that its node holds: items that are no holes, the
values of fields, also under a name that comes again, the key in brackets, the callee
and every argument of a call. -/

def children : Expr → List Expr
  | .literal _ _ => []
  | .name _ _ => []
  | .array _ items => items.filterMap id
  | .object _ fields => fields.map (·.2)
  | .signed _ _ operand => [operand]
  | .member _ owner _ => [owner]
  | .index _ owner key => [owner, key]
  | .call _ callee given => callee :: given
  | .new _ callee given => callee :: given

inductive Occurs (part : Expr) : Expr → Prop
  | here : Occurs part part
  | inside {whole child : Expr} (member : child ∈ whole.children) (inner : Occurs part child) :
      Occurs part whole

theorem sizeOf_lt_of_mem_children {expr child : Expr} (member : child ∈ expr.children) :
    sizeOf child < sizeOf expr := by
  cases expr with
  | literal position content => cases member
  | name position label => cases member
  | array position items =>
      have belongs : some child ∈ items := by simpa [children] using member
      have smaller := List.sizeOf_lt_of_mem belongs
      rw [Option.some.sizeOf_spec] at smaller
      rw [array.sizeOf_spec]
      omega
  | object position fields =>
      rcases List.mem_map.mp member with ⟨field, belongs, rfl⟩
      have smaller := List.sizeOf_lt_of_mem belongs
      rw [Prod.mk.sizeOf_spec] at smaller
      rw [object.sizeOf_spec]
      omega
  | signed position sign operand =>
      rw [List.mem_singleton.mp member, signed.sizeOf_spec]
      omega
  | member position owner label =>
      rw [List.mem_singleton.mp member, Expr.member.sizeOf_spec]
      omega
  | index position owner key =>
      rw [index.sizeOf_spec]
      rcases List.mem_cons.mp member with rfl | later
      · omega
      · rw [List.mem_singleton.mp later]
        omega
  | call position callee given =>
      rw [call.sizeOf_spec]
      rcases List.mem_cons.mp member with rfl | later
      · omega
      · have smaller := List.sizeOf_lt_of_mem later
        omega
  | new position callee given =>
      rw [new.sizeOf_spec]
      rcases List.mem_cons.mp member with rfl | later
      · omega
      · have smaller := List.sizeOf_lt_of_mem later
        omega

-- The generated recursor has a motive for each of the nested lists; here one over all parts does.
theorem induction {motive : Expr → Prop}
    (node : ∀ expr, (∀ child ∈ expr.children, motive child) → motive expr) (expr : Expr) :
    motive expr :=
  node expr fun child _member => induction node child
termination_by sizeOf expr
decreasing_by exact sizeOf_lt_of_mem_children _member

/-- What a node hands down to its children holds of everything that occurs. -/
theorem Occurs.descend {holds : Expr → Prop}
    (step : ∀ whole, holds whole → ∀ child ∈ whole.children, holds child) {part whole : Expr}
    (occurs : Occurs part whole) (start : holds whole) : holds part := by
  induction occurs with
  | here => exact start
  | inside member _ induction => exact induction (step _ start _ member)

theorem Occurs.trans {part middle whole : Expr} (inner : Occurs part middle)
    (outer : Occurs middle whole) : Occurs part whole := by
  induction outer with
  | here => exact inner
  | inside member _ induction => exact .inside member induction

end DocShell.Expr
