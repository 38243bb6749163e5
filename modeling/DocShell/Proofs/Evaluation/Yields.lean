import DocShell.Evaluation.Meaning
import DocShell.Proofs.Evaluation.Built
import DocShell.Proofs.Expr.Invariant
import DocShell.Proofs.Fields

namespace DocShell

/-! # What expressions yield

The values of all expressions of a text are as good as its lexemes, and their plain data
takes at most two levels more than the expressions were read with. -/

namespace Expr

open Value

/-- If an expression has a value, it is one that was read, and its plain data takes no
more than the given levels. -/
def Yields (levels : Nat) (expr : Expr) : Prop :=
  ∀ meaning, expr.meaning = .ok meaning →
    meaning.value.Everywhere ReadHere ∧ meaning.value.plain.need ≤ levels

theorem Yields.mono {levels more : Nat} {expr : Expr} (yields : Yields levels expr)
    (fits : levels ≤ more) : Yields more expr := by
  intro meaning found
  rcases yields meaning found with ⟨read, need⟩
  exact ⟨read, Nat.le_trans need fits⟩

theorem need_plain_number (number : Double) : (Value.number number).plain.need ≤ 2 := by
  rw [Value.plain]
  split
  · exact numberNeed_le number
  · decide

/-! ## Literals and names -/

theorem eq_of_literal?_regex {lexeme : Lexeme} {source options : String}
    (found : Reader.literal? lexeme = some (.regex source options)) :
    lexeme = .regex source options := by
  cases lexeme with
  | regex other letters =>
      cases found
      rfl
  | word label =>
      rw [Reader.literal?, Reader.keyword?] at found
      split at found
      · cases found
      split at found
      · cases found
      split at found <;> cases found
  | number written => cases found
  | string text => cases found
  | mark mark => cases found

theorem yields_literal {lexeme : Lexeme} {literal : Literal} (sound : lexeme.Sound)
    (found : Reader.literal? lexeme = some literal) (position : Position) :
    Yields 2 (.literal position literal) := by
  intro meaning equal
  rw [Expr.meaning] at equal
  rcases bind_pure_eq_ok.mp equal with ⟨value, denoted, rfl⟩
  cases literal with
  | null =>
      cases denoted
      exact ⟨trivial, (by decide : 1 ≤ 2)⟩
  | bool value =>
      cases denoted
      exact ⟨trivial, (by decide : 1 ≤ 2)⟩
  | number written =>
      cases denoted
      exact ⟨trivial, need_plain_number _⟩
  | string text =>
      cases denoted
      exact ⟨trivial, (by decide : 1 ≤ 2)⟩
  | regex source options =>
      cases eq_of_literal?_regex found
      rw [literalValue] at denoted
      split at denoted
      · rename_i pattern accepted
        cases denoted
        rcases Pattern.sound_of_new? accepted with ⟨kept, rfl⟩
        exact ⟨⟨kept, sound⟩, (by decide : 1 ≤ 2)⟩
      · cases denoted

theorem yields_name (position : Position) (label : String) : Yields 1 (.name position label) := by
  intro meaning equal
  rw [Expr.meaning] at equal
  split at equal
  · rename_i named known
    cases equal
    unfold Meaning.ofName? at known
    split at known
    · cases known
      exact ⟨trivial, Nat.zero_le 1⟩
    split at known
    · cases known
      exact ⟨trivial, Nat.zero_le 1⟩
    split at known
    · cases known
      exact ⟨trivial, Nat.le_refl 1⟩
    split at known
    · cases known
      exact ⟨trivial, Nat.le_refl 1⟩
    · cases known
  · cases equal

/-! ## Containers -/

theorem mem_itemValues {items : List (Option Expr)} {values : List Value}
    (found : itemValues items = .ok values) :
    ∀ value ∈ values, value = .absent ∨
      ∃ expr meaning, some expr ∈ items ∧ expr.meaning = .ok meaning ∧ value = meaning.value := by
  induction items generalizing values with
  | nil =>
      cases found
      intro value member
      cases member
  | cons item rest induction =>
      intro value member
      cases item with
      | none =>
          rw [itemValues] at found
          rcases bind_pure_eq_ok.mp found with ⟨others, later, rfl⟩
          rcases List.mem_cons.mp member with rfl | inner
          · exact .inl rfl
          · refine (induction later value inner).imp_right ?_
            rintro ⟨expr, meaning, inside, both⟩
            exact ⟨expr, meaning, List.mem_cons_of_mem _ inside, both⟩
      | some item =>
          rw [itemValues] at found
          rcases bind_eq_ok.mp found with ⟨first, denoted, more⟩
          rcases bind_pure_eq_ok.mp more with ⟨others, later, rfl⟩
          rcases List.mem_cons.mp member with rfl | inner
          · exact .inr ⟨item, first, List.mem_cons_self, denoted, rfl⟩
          · refine (induction later value inner).imp_right ?_
            rintro ⟨expr, meaning, inside, both⟩
            exact ⟨expr, meaning, List.mem_cons_of_mem _ inside, both⟩

theorem mem_fieldValues {fields : List (String × Expr)} {values : List (String × Value)}
    (found : fieldValues fields = .ok values) :
    ∀ value ∈ values, ∃ field ∈ fields, ∃ meaning,
      field.2.meaning = .ok meaning ∧ value.2 = meaning.value := by
  induction fields generalizing values with
  | nil =>
      cases found
      intro value member
      cases member
  | cons field rest induction =>
      rcases field with ⟨key, expr⟩
      rw [fieldValues] at found
      rcases bind_eq_ok.mp found with ⟨first, denoted, more⟩
      rcases bind_pure_eq_ok.mp more with ⟨others, later, rfl⟩
      intro value member
      rcases List.mem_cons.mp member with rfl | inner
      · exact ⟨(key, expr), List.mem_cons_self, first, denoted, rfl⟩
      · rcases induction later value inner with ⟨field, inside, both⟩
        exact ⟨field, List.mem_cons_of_mem _ inside, both⟩

theorem mem_argumentValues {given : List Expr} {arguments : List Argument}
    (found : argumentValues given = .ok arguments) :
    ∀ argument ∈ arguments, ∃ expr ∈ given, ∃ meaning,
      expr.meaning = .ok meaning ∧ argument.value = meaning.value := by
  induction given generalizing arguments with
  | nil =>
      cases found
      intro argument member
      cases member
  | cons expr rest induction =>
      rw [argumentValues] at found
      rcases bind_eq_ok.mp found with ⟨first, denoted, more⟩
      rcases bind_pure_eq_ok.mp more with ⟨others, later, rfl⟩
      intro argument member
      rcases List.mem_cons.mp member with rfl | inner
      · exact ⟨expr, List.mem_cons_self, first, denoted, rfl⟩
      · rcases induction later argument inner with ⟨source, inside, both⟩
        exact ⟨source, List.mem_cons_of_mem _ inside, both⟩

theorem yields_array {levels : Nat} {items : List (Option Expr)}
    (each : ∀ item ∈ items, ∀ expr, item = some expr → Yields levels expr)
    (position : Position) : Yields (2 + max 1 levels) (.array position items) := by
  intro meaning equal
  rw [Expr.meaning] at equal
  rcases bind_pure_eq_ok.mp equal with ⟨values, found, rfl⟩
  have inside : ∀ value ∈ values, value.Everywhere ReadHere ∧ value.plain.need ≤ levels := by
    intro value member
    rcases mem_itemValues found value member with rfl | ⟨expr, meaning, belongs, denoted, rfl⟩
    · exact ⟨trivial, Nat.zero_le levels⟩
    · exact each _ belongs expr rfl meaning denoted
  refine ⟨everywhere_array.mpr ⟨trivial, fun value member => (inside value member).1⟩, ?_⟩
  refine Nat.add_le_add_left (needItems_le fun item member => ⟨Nat.le_max_left 1 levels, ?_⟩) 2
  rcases mem_plainItems member with ⟨source, belongs, rfl⟩
  have within := (inside source belongs).2
  refine Nat.le_trans (need_orNull_le _) (Nat.max_le.mpr ⟨Nat.le_max_left 1 levels, ?_⟩)
  exact Nat.le_trans within (Nat.le_max_right 1 levels)

theorem yields_object {levels : Nat} {fields : List (String × Expr)}
    (each : ∀ field ∈ fields, Reader.FieldMeans (Yields levels) field)
    (position : Position) : Yields (2 + max 1 levels) (.object position fields) := by
  intro meaning equal
  rw [Expr.meaning] at equal
  rcases bind_pure_eq_ok.mp equal with ⟨values, found, rfl⟩
  have inside : ∀ value ∈ Fields.ofPairs values,
      value.2.Everywhere ReadHere ∧ value.2.plain.need ≤ max 1 levels := by
    intro value member
    rcases mem_fieldValues found value (Fields.mem_of_mem_ofPairs member) with
      ⟨⟨key, expr⟩, belongs, meaning, denoted, same⟩
    rw [same]
    rcases each _ belongs with ⟨position, label, rfl⟩ | yields
    · exact (yields_name position label).mono (Nat.le_max_left 1 levels) meaning denoted
    · exact yields.mono (Nat.le_max_right 1 levels) meaning denoted
  refine ⟨everywhere_document.mpr
    ⟨Fields.nodup_ofPairs values, fun value member => (inside value member).1⟩, ?_⟩
  refine Nat.add_le_add_left (needFields_le fun field member => ?_) 2
  rcases mem_plainFields member with ⟨source, belongs, rfl, _⟩
  exact (inside source belongs).2

/-! ## Signs and calls -/

theorem yields_signed (position : Position) (sign : Sign) (operand : Expr) :
    Yields 2 (.signed position sign operand) := by
  intro meaning equal
  rw [Expr.meaning] at equal
  rcases bind_eq_ok.mp equal with ⟨inner, denoted, more⟩
  rcases bind_pure_eq_ok.mp more with ⟨value, signed, rfl⟩
  unfold signedValue at signed
  split at signed
  · cases sign with
    | plus =>
        cases signed
        exact ⟨trivial, need_plain_number _⟩
    | minus =>
        cases signed
        exact ⟨trivial, need_plain_number _⟩
  · cases signed

theorem yields_of_error {levels : Nat} {expr : Expr}
    (fails : ∀ meaning, expr.meaning ≠ .ok meaning) : Yields levels expr :=
  fun meaning found => absurd found (fails meaning)

theorem yields_member (levels : Nat) (position : Position) (owner : Expr) (label : String) :
    Yields levels (.member position owner label) := by
  refine yields_of_error fun meaning equal => ?_
  rw [Expr.meaning] at equal
  rcases bind_eq_ok.mp equal with ⟨inner, _, failed⟩
  cases failed

theorem yields_index (levels : Nat) (position : Position) (owner key : Expr) :
    Yields levels (.index position owner key) := by
  refine yields_of_error fun meaning equal => ?_
  rw [Expr.meaning] at equal
  rcases bind_eq_ok.mp equal with ⟨inner, _, more⟩
  rcases bind_eq_ok.mp more with ⟨_, _, failed⟩
  cases failed

def called (position : Position) (callee : Expr) (given : List Expr) : Except Failure Meaning := do
  match ← meaning callee with
  | .data value => .error (.misuse (.notFunction value.typeName) callee.position)
  | .constructor builder => return .data (← builder.build position (← argumentValues given))

theorem yields_of_called {position : Position} {expr callee : Expr} {given : List Expr}
    {room levels : Nat} (equation : expr.meaning = called position callee given)
    (each : ∀ argument ∈ given, 0 < room ∧ Yields (room + 2) argument)
    (enough : 0 < room → 4 ≤ levels) : Yields levels expr := by
  intro meaning equal
  rw [equation, called] at equal
  rcases bind_eq_ok.mp equal with ⟨found, _, more⟩
  cases found with
  | data value => cases more
  | constructor builder =>
      rcases bind_eq_ok.mp more with ⟨arguments, evaluated, last⟩
      rcases bind_pure_eq_ok.mp last with ⟨value, built, rfl⟩
      cases given with
      | nil =>
          cases evaluated
          have fails := builder.build_nil position
          rw [built] at fails
          cases fails
      | cons first rest =>
          have levels := enough (each first List.mem_cons_self).1
          have typed : value.Built := by
            refine Constructor.built_of_build (fun argument member => ?_) built
            rcases mem_argumentValues evaluated argument member with
              ⟨expr, belongs, meaning, denoted, same⟩
            exact same ▸ ((each expr belongs).2 meaning denoted).1.here
          refine ⟨(everywhere_scalar typed.scalar).mpr typed.read, ?_⟩
          exact typed.unchanged.symm ▸ Nat.le_trans typed.need levels

/-! ## All expressions -/

/-- An expression that was read with some room yields at most two levels more. -/
def Whole (room : Nat) (expr : Expr) : Prop := 0 < room ∧ Yields (room + 2) expr

def Partly (room left : Nat) (expr : Expr) : Prop := left ≤ room ∧ Yields (room + 3) expr

theorem invariant_yields : Reader.Invariant Lexeme.Sound Whole Partly where
  literal room position lexeme literal sound found :=
    ⟨Nat.le_refl room, (yields_literal sound found position).mono (by omega)⟩
  name room position label :=
    ⟨Nat.le_refl room, (yields_name position label).mono (by omega)⟩
  group room expr whole := ⟨Nat.le_refl room, whole.2.mono (by omega)⟩
  array room position items each := by
    refine ⟨Nat.le_refl _, (yields_array (fun item member expr equal =>
      (each item member expr equal).2) position).mono (by omega)⟩
  object room position fields each := by
    refine ⟨Nat.le_refl _, (yields_object (fun field member =>
      (each field member).imp_right And.right) position).mono (by omega)⟩
  signed room position sign operand _ :=
    ⟨Nat.succ_pos room, (yields_signed position sign operand).mono (by omega)⟩
  member room left position owner label start :=
    ⟨Nat.le_of_succ_le start.1, yields_member _ position owner label⟩
  index room left position owner key start _ :=
    ⟨Nat.le_of_succ_le start.1, yields_index _ position owner key⟩
  call room left position owner given start each := by
    have less := start.1
    refine ⟨Nat.le_of_succ_le less, yields_of_called rfl each fun positive => ?_⟩
    omega
  new room left position callee given start each := by
    have less := start.1
    refine ⟨Nat.le_refl room, yields_of_called rfl each fun positive => ?_⟩
    omega
  expression room left expr start := ⟨Nat.succ_pos room, start.2⟩

end Expr

end DocShell
