import DocShell.Proofs.Expr.Parts

namespace DocShell.Expr

/-! # The height of expressions

How many nodes the longest way from the root of an expression to a leaf has. The limit on
levels bounds the height, but not by the limit itself. A suffix takes a level of the room
that its own chain still has, not of the room that what it stands on had, and the word `new`
takes none. So the chains of an expression add up. -/

mutual

def height : Expr → Nat
  | .literal _ _ => 1
  | .name _ _ => 1
  | .array _ items => itemsHeight items + 1
  | .object _ fields => fieldsHeight fields + 1
  | .signed _ _ operand => operand.height + 1
  | .member _ owner _ => owner.height + 1
  | .index _ owner key => max owner.height key.height + 1
  | .call _ callee given => max callee.height (argumentsHeight given) + 1
  | .new _ callee given => max callee.height (argumentsHeight given) + 1

def itemsHeight : List (Option Expr) → Nat
  | [] => 0
  | none :: rest => itemsHeight rest
  | some item :: rest => max item.height (itemsHeight rest)

def fieldsHeight : List (String × Expr) → Nat
  | [] => 0
  | (_, value) :: rest => max value.height (fieldsHeight rest)

def argumentsHeight : List Expr → Nat
  | [] => 0
  | argument :: rest => max argument.height (argumentsHeight rest)

end

theorem itemsHeight_le_iff {items : List (Option Expr)} {bound : Nat} :
    itemsHeight items ≤ bound ↔ ∀ item ∈ items.filterMap id, item.height ≤ bound := by
  induction items with
  | nil => simp [itemsHeight]
  | cons item rest induction =>
      cases item with
      | none => simpa [itemsHeight] using induction
      | some expr =>
          rw [itemsHeight, Nat.max_le, induction, List.filterMap_cons_some (f := id) rfl,
            List.forall_mem_cons]

theorem fieldsHeight_le_iff {fields : List (String × Expr)} {bound : Nat} :
    fieldsHeight fields ≤ bound ↔ ∀ field ∈ fields, field.2.height ≤ bound := by
  induction fields with
  | nil => simp [fieldsHeight]
  | cons field rest induction =>
      rw [fieldsHeight, Nat.max_le, induction, List.forall_mem_cons]

theorem argumentsHeight_le_iff {given : List Expr} {bound : Nat} :
    argumentsHeight given ≤ bound ↔ ∀ argument ∈ given, argument.height ≤ bound := by
  induction given with
  | nil => simp [argumentsHeight]
  | cons argument rest induction =>
      rw [argumentsHeight, Nat.max_le, induction, List.forall_mem_cons]

/-- A node is one higher than the highest of its children. -/
theorem height_le_succ_iff {expr : Expr} {bound : Nat} :
    expr.height ≤ bound + 1 ↔ ∀ child ∈ expr.children, child.height ≤ bound := by
  cases expr with
  | literal => simp [height, children]
  | name => simp [height, children]
  | array position items =>
      rw [height, Nat.add_le_add_iff_right, itemsHeight_le_iff, children]
  | object position fields =>
      rw [height, Nat.add_le_add_iff_right, fieldsHeight_le_iff, children, List.forall_mem_map]
  | signed position sign operand =>
      rw [height, Nat.add_le_add_iff_right, children, List.forall_mem_singleton]
  | member position owner label =>
      rw [height, Nat.add_le_add_iff_right, children, List.forall_mem_singleton]
  | index position owner key =>
      rw [height, Nat.add_le_add_iff_right, Nat.max_le, children, List.forall_mem_cons,
        List.forall_mem_singleton]
  | call position callee given =>
      rw [height, Nat.add_le_add_iff_right, Nat.max_le, argumentsHeight_le_iff, children,
        List.forall_mem_cons]
  | new position callee given =>
      rw [height, Nat.add_le_add_iff_right, Nat.max_le, argumentsHeight_le_iff, children,
        List.forall_mem_cons]

theorem height_pos (expr : Expr) : 0 < expr.height := by
  cases expr <;> simp [height]

theorem height_lt_of_child {expr child : Expr} (member : child ∈ expr.children) :
    child.height < expr.height := by
  have bound : expr.height ≤ (expr.height - 1) + 1 := by omega
  have inner := height_le_succ_iff.mp bound child member
  have positive := expr.height_pos
  omega

/-! ## Chains -/

def owner? : Expr → Option Expr
  | .member _ owner _ => some owner
  | .index _ owner _ => some owner
  | .call _ callee _ => some callee
  | _ => none

theorem mem_children_of_owner? {expr owner : Expr} (found : expr.owner? = some owner) :
    owner ∈ expr.children := by
  cases expr <;> cases found <;> simp [children]

/-- What a node must be for its levels to cover its height: a suffix stands on a single node,
or on a suffix of one, and `new` has arguments. -/
def Unchained (expr : Expr) : Prop :=
  (∀ position callee, expr ≠ .new position callee []) ∧
    ∀ owner, expr.owner? = some owner →
      owner.height = 1 ∨ ∃ inner, owner.owner? = some inner ∧ inner.height = 1

def UnchainedThroughout (expr : Expr) : Prop := ∀ part, Occurs part expr → part.Unchained

theorem UnchainedThroughout.of_occurs {part whole : Expr} (unchained : whole.UnchainedThroughout)
    (occurs : Occurs part whole) : part.UnchainedThroughout :=
  fun _ inner => unchained _ (inner.trans occurs)

theorem UnchainedThroughout.child {child whole : Expr} (unchained : whole.UnchainedThroughout)
    (member : child ∈ whole.children) : child.UnchainedThroughout :=
  unchained.of_occurs (.inside member .here)

theorem UnchainedThroughout.of_children {whole : Expr} (here : whole.Unchained)
    (inside : ∀ child ∈ whole.children, child.UnchainedThroughout) :
    whole.UnchainedThroughout := by
  intro part occurs
  cases occurs with
  | here => exact here
  | inside member inner => exact inside _ member part inner

/-- What stands on something is more than a single node. -/
theorem one_lt_height {expr owner : Expr} (found : expr.owner? = some owner) : 1 < expr.height :=
  Nat.lt_of_le_of_lt owner.height_pos (height_lt_of_child (mem_children_of_owner? found))

end DocShell.Expr
