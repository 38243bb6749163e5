import DocShell.Proofs.Fields
import DocShell.Proofs.Token.Literal
import DocShell.Proofs.Value.Normal
import DocShell.Value.Equality

namespace DocShell.Value

/-! # Values out of shell text

What holds of the values that expressions denote, before and after they are made
plain. Plain values are sound and closed, and writing and reading them changes nothing
that counts, as long as no pattern holds a carriage return. -/

def ReadHere : Value → Prop
  | .double _ => False
  | .date instant => instant.natAbs ≤ Calendar.instantLimit
  | .regex pattern => pattern.Sound ∧ Pattern.Literal pattern.source
  | .document fields => (Fields.names fields).Nodup
  | _ => True

def DecodedHere : Value → Prop
  | .absent => False
  | .number value => value.isFinite = true
  | part => ReadHere part

def Decoded (value : Value) : Prop := value.Everywhere DecodedHere

/-! ## Making plain -/

theorem mem_plainItems {items : List Value} {item : Value} (member : item ∈ plainItems items) :
    ∃ source ∈ items, item = source.plain.orNull := by
  induction items with
  | nil => cases member
  | cons first rest induction =>
      rw [plainItems] at member
      rcases List.mem_cons.mp member with rfl | inner
      · exact ⟨first, List.mem_cons_self, rfl⟩
      · rcases induction inner with ⟨source, inside, equal⟩
        exact ⟨source, List.mem_cons_of_mem _ inside, equal⟩

theorem plainFields_cons (name : String) (value : Value) (rest : List (String × Value)) :
    plainFields ((name, value) :: rest) =
      if value.plain.isAbsent then plainFields rest
      else (name, value.plain) :: plainFields rest := by
  rw [plainFields]
  cases value.plain <;> rfl

theorem mem_plainFields {fields : List (String × Value)} {field : String × Value}
    (member : field ∈ plainFields fields) :
    ∃ source ∈ fields, field = (source.1, source.2.plain) ∧ source.2.plain.isAbsent = false := by
  induction fields with
  | nil => cases member
  | cons first rest induction =>
      rcases first with ⟨name, value⟩
      rw [plainFields_cons] at member
      have later (inner : field ∈ plainFields rest) : ∃ source ∈ (name, value) :: rest,
          field = (source.1, source.2.plain) ∧ source.2.plain.isAbsent = false := by
        rcases induction inner with ⟨source, inside, found⟩
        exact ⟨source, List.mem_cons_of_mem _ inside, found⟩
      split at member
      · exact later member
      · rename_i present
        rcases List.mem_cons.mp member with rfl | inner
        · exact ⟨(name, value), List.mem_cons_self, rfl, Bool.eq_false_iff.mpr present⟩
        · exact later inner

/-- Making fields plain is to retain those that hold something, with their values plain. -/
theorem plainFields_eq_retain (fields : List (String × Value)) :
    plainFields fields = Fields.retain (fun _ _ value =>
      (if value.plain.isAbsent then none else some value.plain, ())) () fields := by
  induction fields with
  | nil => rfl
  | cons first rest induction =>
      rcases first with ⟨name, value⟩
      rw [plainFields_cons, Fields.retain, induction]
      cases value.plain.isAbsent <;> rfl

theorem names_plainFields (fields : List (String × Value)) :
    (Fields.names (plainFields fields)).Sublist (Fields.names fields) := by
  rw [plainFields_eq_retain]
  exact Fields.names_retain _ _ _

/-! ### What is plain already -/

theorem plainItems_of_each {items : List Value}
    (each : ∀ item ∈ items, item.plain = item ∧ item.isAbsent = false) :
    plainItems items = items := by
  induction items with
  | nil => rfl
  | cons item rest induction =>
      rcases each item List.mem_cons_self with ⟨plain, present⟩
      have kept : item.orNull = item := by
        cases item with
        | absent => cases present
        | _ => rfl
      rw [plainItems, plain, kept,
        induction fun other member => each other (List.mem_cons_of_mem _ member)]

theorem plainFields_of_each {fields : List (String × Value)}
    (each : ∀ field ∈ fields, field.2.plain = field.2 ∧ field.2.isAbsent = false) :
    plainFields fields = fields := by
  induction fields with
  | nil => rfl
  | cons field rest induction =>
      rcases field with ⟨name, value⟩
      rcases each (name, value) List.mem_cons_self with ⟨plain, present⟩
      have plain : value.plain = value := plain
      have present : value.isAbsent = false := present
      rw [plainFields_cons, plain, present,
        induction fun other member => each other (List.mem_cons_of_mem _ member)]
      rfl

/-! ### What becomes plain -/

theorem decoded_orNull {value : Value} (decoded : value.isAbsent = false → value.Decoded) :
    value.orNull.Decoded := by
  cases value with
  | absent => exact trivial
  | _ => exact decoded rfl

/-- Plain data of a value that an expression denotes, unless it is absent. -/
theorem decoded_plain {value : Value} (read : value.Everywhere ReadHere)
    (present : value.plain.isAbsent = false) : value.plain.Decoded := by
  induction value using Value.induction with
  | scalar value scalar =>
      cases value with
      | absent => cases present
      | number number =>
          rw [plain]
          split
          · assumption
          · trivial
      | array items => cases scalar
      | document fields => cases scalar
      | _ => exact read
  | array items induction =>
      have inside := (everywhere_array.mp read).2
      refine everywhere_array.mpr ⟨trivial, fun item member => ?_⟩
      rcases mem_plainItems member with ⟨source, belongs, rfl⟩
      exact decoded_orNull (induction source belongs (inside source belongs))
  | document fields induction =>
      rcases everywhere_document.mp read with ⟨nodup, inside⟩
      refine everywhere_document.mpr ⟨nodup.sublist (names_plainFields fields),
        fun field member => ?_⟩
      rcases mem_plainFields member with ⟨source, belongs, rfl, kept⟩
      exact induction source belongs (inside source belongs) kept

/-! ## What decoded values are -/

theorem Decoded.sound {value : Value} (decoded : value.Decoded) : value.Sound := by
  refine Everywhere.imp decoded fun part here => ?_
  cases part with
  | date instant => exact here
  | regex pattern => exact here.1
  | document fields => exact here
  | _ => trivial

theorem Decoded.closed {value : Value} (decoded : value.Decoded) : value.Closed := by
  refine Everywhere.imp decoded fun part here => ?_
  cases part with
  | regex pattern => exact here.2.closed
  | _ => trivial

/-! ## Equality -/

def NoReturnHere : Value → Prop
  | .regex pattern => '\r' ∉ pattern.source.toList
  | _ => True

/-- A value without a carriage return in a pattern. -/
def NoReturn (value : Value) : Prop := value.Everywhere NoReturnHere

theorem signedUnits_normal (negative : Bool) (magnitude : Magnitude) :
    Double.signedUnits (negative && magnitude.units ≠ 0) magnitude =
      Double.signedUnits negative magnitude := by
  cases negative with
  | false => rfl
  | true =>
      by_cases zero : magnitude.units = 0
      · simp [Double.signedUnits, zero]
      · simp [zero]

theorem equalNumbers_normal (negative : Bool) (magnitude : Magnitude) :
    equalNumbers (.finite (negative && magnitude.units ≠ 0) magnitude)
      (.finite negative magnitude) = true := by
  rw [equalNumbers, Double.equal, signedUnits_normal, beq_self_eq_true, Bool.true_or]

theorem equalNumbers_self (number : Double) : equalNumbers number number = true := by
  cases number with
  | nan => rfl
  | infinity negative => simp [equalNumbers, Double.equal]
  | finite negative magnitude => simp [equalNumbers, Double.equal]

theorem normal_regex {pattern : Pattern} (written : Pattern.Literal pattern.source)
    (noReturn : '\r' ∉ pattern.source.toList) : normal (.regex pattern) = .regex pattern := by
  rw [normal, written.verbatim noReturn, String.ofList_toList]

theorem semanticEq_normal_scalar {value : Value} (scalar : value.isContainer = false)
    (decoded : value.DecodedHere) (noReturn : value.NoReturnHere) :
    value.normal.semanticEq value = true := by
  cases value with
  | absent => exact decoded.elim
  | double number => exact decoded.elim
  | number number =>
      cases number with
      | nan => cases decoded
      | infinity negative => cases decoded
      | finite negative magnitude =>
          simpa only [normal, normalNumber, semanticEq, bareNumber?] using
            equalNumbers_normal negative magnitude
  | int number =>
      simpa only [normal, semanticEq, bareNumber?] using
        equalNumbers_self (Double.ofInt number.toInt)
  | regex pattern =>
      rw [normal_regex decoded.2 noReturn]
      simp [semanticEq, bareNumber?, same]
  | array items => cases scalar
  | document fields => cases scalar
  | _ => simp [normal, semanticEq, bareNumber?, same]

theorem normal_present {value : Value} (decoded : value.DecodedHere) :
    value.normal.orNull = value.normal := by
  cases value with
  | absent => exact decoded.elim
  | number number => cases number <;> rfl
  | double number => cases number <;> rfl
  | _ => rfl

theorem semanticEqItems_normalItems {items : List Value}
    (decoded : ∀ item ∈ items, item.Decoded)
    (each : ∀ item ∈ items, item.normal.semanticEq item = true) :
    semanticEqItems (normalItems items) items = true := by
  induction items with
  | nil => rfl
  | cons item rest induction =>
      have here := (decoded item List.mem_cons_self).here
      have first := each item List.mem_cons_self
      have later := induction (fun other member => decoded other (List.mem_cons_of_mem _ member))
        fun other member => each other (List.mem_cons_of_mem _ member)
      rw [normalItems, semanticEqItems, normal_present here, first, later, Bool.and_self]

theorem semanticEqFields_normalFields {fields : List (String × Value)}
    (decoded : ∀ field ∈ fields, field.2.Decoded)
    (each : ∀ field ∈ fields, field.2.normal.semanticEq field.2 = true) :
    semanticEqFields (normalFields fields) fields = true := by
  induction fields with
  | nil => rfl
  | cons field rest induction =>
      rcases field with ⟨name, value⟩
      have here := (decoded (name, value) List.mem_cons_self).here
      have kept : ¬value.isAbsent = true := by
        cases value with
        | absent => exact here.elim
        | _ => exact Bool.false_ne_true
      have first := each (name, value) List.mem_cons_self
      have later := induction (fun other member => decoded other (List.mem_cons_of_mem _ member))
        fun other member => each other (List.mem_cons_of_mem _ member)
      rw [normalFields, if_neg kept, semanticEqFields, first, later, beq_self_eq_true,
        Bool.and_self, Bool.and_self]

/-- Writing and reading plain data changes nothing that counts. -/
theorem semanticEq_normal {value : Value} (decoded : value.Decoded) (noReturn : value.NoReturn) :
    value.normal.semanticEq value = true := by
  induction value using Value.induction with
  | scalar value scalar =>
      exact semanticEq_normal_scalar scalar decoded.here noReturn.here
  | array items induction =>
      have inside := (everywhere_array.mp decoded).2
      have free := (everywhere_array.mp noReturn).2
      rw [normal, semanticEq]
      exact semanticEqItems_normalItems inside fun item member =>
        induction item member (inside item member) (free item member)
  | document fields induction =>
      have inside := (everywhere_document.mp decoded).2
      have free := (everywhere_document.mp noReturn).2
      rw [normal, semanticEq]
      exact semanticEqFields_normalFields inside fun field member =>
        induction field member (inside field member) (free field member)

end DocShell.Value
