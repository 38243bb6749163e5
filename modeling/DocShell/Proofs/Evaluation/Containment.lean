import DocShell.Evaluation.Meaning
import DocShell.Failure.Message
import DocShell.Proofs.Expr.Parts
import DocShell.Proofs.Failure.Bind

namespace DocShell

/-! # Containment

An expression that has a meaning uses no name but those of the constructors and of three
values, asks nothing for a property, and calls nothing but constructors by their name, in
all of its parts. An expression that fails over a name has that name in it. -/

namespace Failure

def Nameless (failure : Failure) : Prop := failure.family ≠ .referenceError

theorem nameless_unreadable (fault : SyntaxFault) (position : Position) :
    (unreadable fault position).Nameless := by
  intro family
  cases family

theorem nameless_misuse (fault : Misuse) (position : Position) :
    (misuse fault position).Nameless := by
  intro family
  cases family

theorem nameless_unsupported (target label : String) : (unsupported target label).Nameless := by
  intro family
  cases family

theorem nameless_chain (fault : ChainFault) : (chain fault).Nameless := by
  intro family
  cases family

end Failure

/-! ## Constructors -/

namespace Constructor

/-- How a call of a constructor may fail: over the kind of an argument, or over its
precision. -/
def Objection (failure : Failure) : Prop :=
  failure.family = .typeError ∨ failure.family = .precisionLoss

variable {argument other : Argument}

theorem failsOnly_buildObjectId : FailsOnly Objection (buildObjectId argument) := by
  unfold buildObjectId
  split
  · split
    · exact failsOnly_ok _
    · exact failsOnly_error (.inl rfl)
  · exact failsOnly_error (.inl rfl)

theorem failsOnly_buildDate {who : String} : FailsOnly Objection (buildDate who argument) := by
  unfold buildDate
  split
  · exact failsOnly_error (.inl rfl)
  · split
    · exact failsOnly_ok _
    · exact failsOnly_error (.inl rfl)

theorem failsOnly_decimalDigits : FailsOnly Objection (decimalDigits argument) := by
  unfold decimalDigits
  split
  · exact failsOnly_ok _
  · split
    · exact failsOnly_ok _
    · exact failsOnly_ok _
  · exact failsOnly_error (.inl rfl)

theorem failsOnly_buildDecimal : FailsOnly Objection (buildDecimal argument) := by
  refine failsOnly_decimalDigits.bind fun text => ?_
  split
  · exact failsOnly_ok _
  · exact failsOnly_error (.inr rfl)
  · exact failsOnly_error (.inl rfl)

theorem failsOnly_buildInt : FailsOnly Objection (buildInt argument) := by
  unfold buildInt
  extract_lets number?
  split
  · exact failsOnly_ok _
  · exact failsOnly_error (.inl rfl)

theorem failsOnly_longOfNumber {number : Double} :
    FailsOnly Objection (longOfNumber argument number) := by
  unfold longOfNumber
  extract_lets spelling
  split
  · exact failsOnly_error (.inl rfl)
  split
  · exact failsOnly_error (.inr rfl)
  split
  · split
    · exact failsOnly_ok _
    · exact failsOnly_error (.inr rfl)
  · exact failsOnly_error (.inr rfl)

theorem failsOnly_buildLong : FailsOnly Objection (buildLong argument) := by
  unfold buildLong
  split
  · split
    · exact failsOnly_ok _
    · exact failsOnly_error (.inr rfl)
    · exact failsOnly_error (.inl rfl)
  · exact failsOnly_longOfNumber
  · exact failsOnly_ok _
  · exact failsOnly_error (.inl rfl)

theorem failsOnly_timestampPart {part : String} :
    FailsOnly Objection (timestampPart part argument) := by
  unfold timestampPart
  split
  · exact failsOnly_ok _
  · exact failsOnly_error (.inl rfl)

theorem failsOnly_buildTimestamp : FailsOnly Objection (buildTimestamp argument other) :=
  failsOnly_timestampPart.bind fun _ => failsOnly_timestampPart.bind fun _ => failsOnly_ok _

theorem failsOnly_buildBinary : FailsOnly Objection (buildBinary argument other) := by
  unfold buildBinary
  split
  · exact failsOnly_error (.inl rfl)
  · split
    · split
      · exact failsOnly_ok _
      · exact failsOnly_error (.inl rfl)
    · exact failsOnly_error (.inl rfl)

theorem failsOnly_build (constructor : Constructor) (call : Position) (arguments : List Argument) :
    FailsOnly Objection (constructor.build call arguments) := by
  cases constructor with
  | objectId => exact failsOnly_buildObjectId
  | date => exact failsOnly_buildDate
  | isoDate => exact failsOnly_buildDate
  | decimal => exact failsOnly_buildDecimal
  | int => exact failsOnly_buildInt
  | long => exact failsOnly_buildLong
  | timestamp => exact failsOnly_buildTimestamp
  | binary => exact failsOnly_buildBinary

def names : List String :=
  ["ObjectId", "Date", "ISODate", "NumberDecimal", "NumberInt", "NumberLong", "Timestamp",
    "BinData"]

theorem mem_names_iff {label : String} : label ∈ names ↔ (ofName? label).isSome = true := by
  have listed : names = all.map name := rfl
  simp only [listed, List.mem_map, ofName?, List.find?_isSome, decide_eq_true_eq]

end Constructor

namespace Expr

def boundNames : List String := Constructor.names ++ ["undefined", "NaN", "Infinity"]

theorem mem_boundNames_iff {label : String} :
    label ∈ boundNames ↔ (Meaning.ofName? label).isSome = true := by
  rw [boundNames, List.mem_append, Constructor.mem_names_iff, Meaning.ofName?]
  cases Constructor.ofName? label with
  | some builder => exact iff_of_true (.inl rfl) rfl
  | none =>
      simp only [Option.isSome_none, Bool.false_eq_true, false_or, List.mem_cons,
        List.not_mem_nil, or_false]
      split
      · rename_i undefined
        exact iff_of_true (.inl undefined) rfl
      split
      · rename_i nan
        exact iff_of_true (.inr (.inl nan)) rfl
      split
      · rename_i infinity
        exact iff_of_true (.inr (.inr infinity)) rfl
      · rename_i undefined nan infinity
        exact iff_of_false (by simp [undefined, nan, infinity]) Bool.false_ne_true

def IsConstructor (callee : Expr) : Prop :=
  ∃ position label, callee = .name position label ∧ label ∈ Constructor.names

def Admitted : Expr → Prop
  | .name _ label => label ∈ boundNames
  | .member _ _ _ => False
  | .index _ _ _ => False
  | .call _ callee _ => callee.IsConstructor
  | .new _ callee _ => callee.IsConstructor
  | _ => True

def Contained (expr : Expr) : Prop := ∀ part : Expr, part.Occurs expr → part.Admitted

def Unbound (expr : Expr) (position : Position) (label : String) : Prop :=
  (Expr.name position label).Occurs expr ∧ label ∉ boundNames

/-! ## Meanings of parts

Whatever is found by giving a meaning to expressions in turn is found only if each of
them has one, and a failure over a name is that of one of them. -/

/-- A result that is found through the meanings of all given expressions. -/
def Through {α : Type} (exprs : List Expr) (result : Except Failure α) : Prop :=
  (∀ item, result = .ok item → ∀ expr ∈ exprs, ∃ meaning, expr.meaning = .ok meaning) ∧
    ∀ failure, result = .error failure → ¬failure.Nameless →
      ∃ expr ∈ exprs, expr.meaning = .error failure

section

variable {α β : Type} {exprs : List Expr}

theorem through_nil {result : Except Failure α}
    (fails : FailsOnly Failure.Nameless result) : Through [] result := by
  constructor
  · intro item _ expr member
    cases member
  · intro failure equal named
    exact absurd (fails failure equal) named

theorem through_error {failure : Failure} (other : failure.Nameless) :
    Through exprs (.error failure : Except Failure α) := by
  constructor
  · intro item equal
    cases equal
  · intro failure equal named
    cases equal
    exact absurd other named

theorem Through.append {others : List Expr} {result : Except Failure α}
    {next : α → Except Failure β} (front : Through exprs result)
    (onward : ∀ item, Through others (next item)) : Through (exprs ++ others) (result >>= next) := by
  constructor
  · intro item equal expr member
    rcases bind_eq_ok.mp equal with ⟨first, found, more⟩
    rcases List.mem_append.mp member with early | late
    · exact front.1 first found expr early
    · exact (onward first).1 item more expr late
  · intro failure equal named
    rcases bind_eq_error.mp equal with failed | ⟨first, _, failed⟩
    · rcases front.2 failure failed named with ⟨expr, member, same⟩
      exact ⟨expr, List.mem_append_left _ member, same⟩
    · rcases (onward first).2 failure failed named with ⟨expr, member, same⟩
      exact ⟨expr, List.mem_append_right _ member, same⟩

theorem Through.bind {result : Except Failure α} {next : α → Except Failure β}
    (through : Through exprs result) (onward : ∀ item, FailsOnly Failure.Nameless (next item)) :
    Through exprs (result >>= next) := by
  have all := through.append fun item => through_nil (onward item)
  rwa [List.append_nil] at all

theorem through_cons {expr : Expr} {next : Meaning → Except Failure α}
    (onward : ∀ meaning, Through exprs (next meaning)) :
    Through (expr :: exprs) (expr.meaning >>= next) := by
  have first : Through [expr] expr.meaning := by
    constructor
    · intro meaning found other member
      exact List.mem_singleton.mp member ▸ ⟨meaning, found⟩
    · intro failure failed _
      exact ⟨expr, List.mem_cons_self, failed⟩
  exact first.append onward

end

theorem through_itemValues (items : List (Option Expr)) :
    Through (items.filterMap id) (itemValues items) := by
  induction items with
  | nil => exact through_nil (failsOnly_ok _)
  | cons item rest induction =>
      cases item with
      | none => exact induction.bind fun _ => failsOnly_ok _
      | some expr => exact through_cons fun _ => induction.bind fun _ => failsOnly_ok _

theorem through_fieldValues (fields : List (String × Expr)) :
    Through (fields.map (·.2)) (fieldValues fields) := by
  induction fields with
  | nil => exact through_nil (failsOnly_ok _)
  | cons field rest induction =>
      exact through_cons fun _ => induction.bind fun _ => failsOnly_ok _

theorem through_argumentValues (given : List Expr) : Through given (argumentValues given) := by
  induction given with
  | nil => exact through_nil (failsOnly_ok _)
  | cons expr rest induction =>
      exact through_cons fun _ => induction.bind fun _ => failsOnly_ok _

theorem failsOnly_literalValue (position : Position) (content : Literal) :
    FailsOnly Failure.Nameless (literalValue position content) := by
  cases content with
  | regex source options =>
      rw [literalValue]
      split
      · exact failsOnly_ok _
      · exact failsOnly_error (Failure.nameless_unreadable _ _)
  | _ => exact failsOnly_ok _

theorem failsOnly_signedValue (position : Position) (sign : Sign) (value : Value) :
    FailsOnly Failure.Nameless (signedValue position sign value) := by
  unfold signedValue
  split
  · cases sign <;> exact failsOnly_ok _
  · exact failsOnly_error (Failure.nameless_misuse _ _)

theorem failsOnly_build (builder : Constructor) (call : Position) (arguments : List Argument) :
    FailsOnly Failure.Nameless (builder.build call arguments) := by
  refine (builder.failsOnly_build call arguments).imp ?_
  rintro failure (family | family) <;> rw [Failure.Nameless, family] <;> decide

theorem through_call (position : Position) (callee : Expr) (given : List Expr) :
    Through (callee :: given) (meaning (.call position callee given)) := by
  rw [meaning]
  apply through_cons
  rintro (value | builder)
  · exact through_error (Failure.nameless_misuse _ _)
  · refine (through_argumentValues given).bind fun arguments => ?_
    exact (failsOnly_build builder position arguments).bind fun _ => failsOnly_ok _

/-- All parts of an expression are given a meaning. A name is the only expression that
fails over one by itself. -/
theorem through_meaning {expr : Expr} (unnamed : ∀ position label, expr ≠ .name position label) :
    Through expr.children expr.meaning := by
  cases expr with
  | literal position content =>
      rw [meaning]
      exact through_nil ((failsOnly_literalValue position content).bind fun _ => failsOnly_ok _)
  | name position label => exact absurd rfl (unnamed position label)
  | array position items =>
      rw [meaning]
      exact (through_itemValues items).bind fun _ => failsOnly_ok _
  | object position fields =>
      rw [meaning]
      exact (through_fieldValues fields).bind fun _ => failsOnly_ok _
  | signed position sign operand =>
      rw [meaning]
      refine through_cons fun inner => through_nil ?_
      exact (failsOnly_signedValue position sign inner.value).bind fun _ => failsOnly_ok _
  | member position owner label =>
      rw [meaning]
      exact through_cons fun _ => through_error (Failure.nameless_misuse _ _)
  | index position owner key =>
      rw [meaning]
      exact through_cons fun _ => through_cons fun _ => through_error (Failure.nameless_misuse _ _)
  | call position callee given => exact through_call position callee given
  | new position callee given =>
      rw [meaning_new]
      exact through_call position callee given

/-! ## Whole expressions -/

/-- What a call that has a meaning consists of. -/
theorem parts_of_call {position : Position} {callee : Expr} {given : List Expr} {found : Meaning}
    (equal : meaning (.call position callee given) = .ok found) :
    ∃ builder value, callee.meaning = .ok (.constructor builder) ∧ found = .data value := by
  rw [meaning] at equal
  rcases bind_eq_ok.mp equal with ⟨inner, denoted, more⟩
  cases inner with
  | data value => cases more
  | constructor builder =>
      rcases bind_eq_ok.mp more with ⟨arguments, _, last⟩
      rcases bind_pure_eq_ok.mp last with ⟨value, _, rfl⟩
      exact ⟨builder, value, denoted, rfl⟩

theorem member_ne_ok (position : Position) (owner : Expr) (label : String) (found : Meaning) :
    meaning (.member position owner label) ≠ .ok found := by
  rw [meaning]
  intro equal
  rcases bind_eq_ok.mp equal with ⟨_, _, failed⟩
  cases failed

theorem index_ne_ok (position : Position) (owner key : Expr) (found : Meaning) :
    meaning (.index position owner key) ≠ .ok found := by
  rw [meaning]
  intro equal
  rcases bind_eq_ok.mp equal with ⟨_, _, more⟩
  rcases bind_eq_ok.mp more with ⟨_, _, failed⟩
  cases failed

theorem ofName?_of_constructor {label : String} {builder : Constructor}
    (known : Meaning.ofName? label = some (.constructor builder)) :
    Constructor.ofName? label = some builder := by
  unfold Meaning.ofName? at known
  split at known
  · rename_i other named
    cases known
    exact named
  · repeat' split at known
    all_goals cases known

/-- Only a name stands for a constructor. -/
theorem isConstructor_of_meaning {callee : Expr} {builder : Constructor}
    (found : callee.meaning = .ok (.constructor builder)) : callee.IsConstructor := by
  -- Everything else stands for data, or for nothing.
  cases callee with
  | literal position content =>
      rw [meaning] at found
      rcases bind_pure_eq_ok.mp found with ⟨_, _, equal⟩
      cases equal
  | name position label =>
      refine ⟨position, label, rfl, ?_⟩
      rw [meaning] at found
      split at found
      · rename_i known
        cases found
        rw [Constructor.mem_names_iff, ofName?_of_constructor known]
        rfl
      · cases found
  | array position items =>
      rw [meaning] at found
      rcases bind_pure_eq_ok.mp found with ⟨_, _, equal⟩
      cases equal
  | object position fields =>
      rw [meaning] at found
      rcases bind_pure_eq_ok.mp found with ⟨_, _, equal⟩
      cases equal
  | signed position sign operand =>
      rw [meaning] at found
      rcases bind_eq_ok.mp found with ⟨_, _, more⟩
      rcases bind_pure_eq_ok.mp more with ⟨_, _, equal⟩
      cases equal
  | member position owner label => exact absurd found (member_ne_ok _ _ _ _)
  | index position owner key => exact absurd found (index_ne_ok _ _ _ _)
  | call position callee given =>
      rcases parts_of_call found with ⟨_, value, _, equal⟩
      cases equal
  | new position callee given =>
      rcases @parts_of_call position callee given _ found with ⟨_, value, _, equal⟩
      cases equal

theorem admitted_of_meaning {expr : Expr} {found : Meaning} (equal : expr.meaning = .ok found) :
    expr.Admitted := by
  cases expr with
  | name position label =>
      rw [meaning] at equal
      split at equal
      · rename_i known
        exact mem_boundNames_iff.mpr (known ▸ rfl)
      · cases equal
  | member position owner label => exact absurd equal (member_ne_ok _ _ _ _)
  | index position owner key => exact absurd equal (index_ne_ok _ _ _ _)
  | call position callee given =>
      rcases parts_of_call equal with ⟨_, _, denoted, _⟩
      exact isConstructor_of_meaning denoted
  | new position callee given =>
      rcases @parts_of_call position callee given _ equal with ⟨_, _, denoted, _⟩
      exact isConstructor_of_meaning denoted
  | _ => trivial

theorem meaning_of_child {whole child : Expr} (member : child ∈ whole.children)
    (meant : ∃ found, whole.meaning = .ok found) : ∃ found, child.meaning = .ok found := by
  rcases meant with ⟨found, equal⟩
  refine (through_meaning fun position label named => ?_).1 found equal child member
  subst named
  cases member

/-- All parts of an expression with a meaning are admitted. -/
theorem contained_of_meaning {expr : Expr} {found : Meaning} (equal : expr.meaning = .ok found) :
    expr.Contained := by
  intro part occurs
  rcases occurs.descend (fun whole meant child member => meaning_of_child member meant)
    ⟨found, equal⟩ with ⟨inner, meant⟩
  exact admitted_of_meaning meant

/-- An expression that fails over a name holds the name, unbound, at the reported place. -/
theorem unbound_of_meaning {expr : Expr} {failure : Failure}
    (failed : expr.meaning = .error failure) (named : ¬failure.Nameless) :
    ∃ position label, failure = .undefined label position ∧ expr.Unbound position label := by
  induction expr using Expr.induction with
  | node expr induction =>
      -- a name fails by itself, every other node as one of its children does
      by_cases isName : ∃ position label, expr = .name position label
      · rcases isName with ⟨position, label, rfl⟩
        rw [meaning] at failed
        split at failed
        · cases failed
        · rename_i unknown
          cases failed
          refine ⟨position, label, rfl, .here, ?_⟩
          rw [mem_boundNames_iff, unknown]
          exact Bool.false_ne_true
      · have other (position : Position) (label : String) : expr ≠ .name position label :=
          fun equal => isName ⟨position, label, equal⟩
        rcases (through_meaning other).2 failure failed named with ⟨child, member, inner⟩
        rcases induction child member inner with ⟨position, label, rfl, occurs, unbound⟩
        exact ⟨position, label, rfl, .inside member occurs, unbound⟩

/-- The plain data of an expression is found through its meaning. -/
theorem through_evaluate (expr : Expr) : Through [expr] expr.evaluate :=
  through_cons fun _ => through_nil (failsOnly_ok _)

theorem contained_of_evaluate {expr : Expr} {value : Value} (found : expr.evaluate = .ok value) :
    expr.Contained := by
  rcases bind_pure_eq_ok.mp found with ⟨meaning, denoted, _⟩
  exact contained_of_meaning denoted

theorem unbound_of_evaluate {expr : Expr} {failure : Failure}
    (failed : expr.evaluate = .error failure) (named : ¬failure.Nameless) :
    ∃ position label, failure = .undefined label position ∧ expr.Unbound position label :=
  unbound_of_meaning (bind_pure_eq_error.mp failed) named

end Expr

end DocShell
