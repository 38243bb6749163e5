import DocShell.Proofs.Number.ReadBack
import DocShell.Proofs.Number.WholeText
import DocShell.Proofs.Value.Decoded
import DocShell.Value.Written

namespace DocShell

/-! # Values that are semantically equal

Of the numbers without a wrapper only the double counts, and zero has no sign. Two values are
semantically equal if they are the same once their numbers are merged in that way, and the text
of a value does not change by merging. -/

namespace Value

/-- Numerical equality sees everything but the sign of zero. -/
theorem equalNumbers_iff {left right : Double} :
    equalNumbers left right = true ↔ left.unsignedZero = right.unsignedZero := by
  cases left with
  | nan => cases right <;> simp [equalNumbers, Double.equal, Double.isNan, Double.unsignedZero]
  | infinity negative =>
      cases right <;> simp [equalNumbers, Double.equal, Double.isNan, Double.unsignedZero]
  | finite leftNegative leftMagnitude =>
      cases right with
      | nan => simp [equalNumbers, Double.equal, Double.isNan, Double.unsignedZero]
      | infinity negative => simp [equalNumbers, Double.equal, Double.isNan, Double.unsignedZero]
      | finite rightNegative rightMagnitude =>
          have compared : equalNumbers (.finite leftNegative leftMagnitude)
              (.finite rightNegative rightMagnitude) = true ↔
              Double.signedUnits leftNegative leftMagnitude =
                Double.signedUnits rightNegative rightMagnitude := by
            simp [equalNumbers, Double.equal, Double.isNan]
          rw [compared, Double.unsignedZero, Double.unsignedZero, Double.finite.injEq]
          -- The units agree with their signs. Only zeros may then differ, and lose theirs.
          constructor
          · intro same
            have units : leftMagnitude.units = rightMagnitude.units := by
              unfold Double.signedUnits at same
              split at same <;> split at same <;> omega
            rw [Magnitude.ext_units units] at same ⊢
            refine ⟨?_, rfl⟩
            by_cases zero : rightMagnitude.units = 0
            · simp [zero]
            · cases leftNegative <;> cases rightNegative <;>
                simp [Double.signedUnits] at same ⊢ <;> omega
          · rintro ⟨signs, rfl⟩
            rw [← signedUnits_normal, signs, signedUnits_normal]

mutual

/-- A value whose numbers without a wrapper are plain ones, and whose zeros have no sign. -/
def merged : Value → Value
  | .number value => .number value.unsignedZero
  | .double value => .number value.unsignedZero
  | .int value => .number (Double.ofInt value.toInt).unsignedZero
  | .array items => .array (mergedItems items)
  | .document fields => .document (mergedFields fields)
  | value => value

def mergedItems : List Value → List Value
  | [] => []
  | item :: rest => merged item :: mergedItems rest

def mergedFields : List (String × Value) → List (String × Value)
  | [] => []
  | (name, value) :: rest => (name, merged value) :: mergedFields rest

end

/-! ## Equality of merged values -/

theorem semanticEq_scalar {left : Value} (scalar : left.isContainer = false) (right : Value) :
    left.semanticEq right =
      match left.bareNumber?, right.bareNumber? with
      | some leftNumber, some rightNumber => equalNumbers leftNumber rightNumber
      | _, _ => left.same right := by
  cases left with
  | array items => cases scalar
  | document fields => cases scalar
  | _ => exact (semanticEq.eq_def _ right).trans rfl

theorem merged_of_bareNumber? {value : Value} {number : Double}
    (bare : value.bareNumber? = some number) : value.merged = .number number.unsignedZero := by
  cases value with
  | number value => cases bare; rfl
  | double value => cases bare; rfl
  | int value => cases bare; rfl
  | _ => cases bare

/-- Scalars that are no bare numbers are the same only as themselves. -/
theorem same_iff_merged {left : Value} (scalar : left.isContainer = false)
    (noNumber : left.bareNumber? = none) (right : Value) :
    left.same right = true ↔ left.merged = right.merged := by
  cases left with
  | array items => cases scalar
  | document fields => cases scalar
  | number value => cases noNumber
  | double value => cases noNumber
  | int value => cases noNumber
  | long digits =>
      cases right with
      | long other => simpa [same, merged] using ⟨LongText.ext_text, congrArg LongText.text⟩
      | _ => simp [same, merged]
  | decimal digits =>
      rcases digits with ⟨text, sound⟩
      cases right with
      | decimal other =>
          rcases other with ⟨otherText, otherSound⟩
          simp [same, merged]
      | _ => simp [same, merged]
  | _ => cases right <;> simp [same, merged]

/-- No scalar that is a bare number merges with anything else. -/
theorem bareNumber?_of_merged {value : Value} {number : Double}
    (merges : value.merged = .number number) : ∃ bare, value.bareNumber? = some bare := by
  cases value with
  | number value => exact ⟨_, rfl⟩
  | double value => exact ⟨_, rfl⟩
  | int value => exact ⟨_, rfl⟩
  | _ => cases merges

theorem semanticEq_iff_merged_scalar {left : Value} (scalar : left.isContainer = false)
    (right : Value) : left.semanticEq right = true ↔ left.merged = right.merged := by
  rw [semanticEq_scalar scalar]
  cases leftBare : left.bareNumber? with
  | none => exact same_iff_merged scalar leftBare right
  | some leftNumber =>
      rw [merged_of_bareNumber? leftBare]
      cases rightBare : right.bareNumber? with
      | none =>
          refine iff_of_false ?_ fun merges => ?_
          · cases left <;> cases leftBare <;> cases right <;> cases rightBare <;>
              exact Bool.false_ne_true
          · rcases bareNumber?_of_merged merges.symm with ⟨number, bare⟩
            rw [rightBare] at bare
            cases bare
      | some rightNumber =>
          rw [merged_of_bareNumber? rightBare, Value.number.injEq]
          exact equalNumbers_iff

theorem semanticEqItems_iff {left right : List Value}
    (each : ∀ item ∈ left, ∀ other, item.semanticEq other = true ↔ item.merged = other.merged) :
    semanticEqItems left right = true ↔ mergedItems left = mergedItems right := by
  induction left generalizing right with
  | nil => cases right <;> simp [semanticEqItems, mergedItems]
  | cons item rest induction =>
      cases right with
      | nil => simp [semanticEqItems, mergedItems]
      | cons other others =>
          have first := each item List.mem_cons_self other
          have later := @induction others fun inner member =>
            each inner (List.mem_cons_of_mem _ member)
          rw [semanticEqItems, Bool.and_eq_true, first, later, mergedItems, mergedItems,
            List.cons.injEq]

theorem semanticEqFields_iff {left right : List (String × Value)}
    (each : ∀ field ∈ left, ∀ other,
      field.2.semanticEq other = true ↔ field.2.merged = other.merged) :
    semanticEqFields left right = true ↔ mergedFields left = mergedFields right := by
  induction left generalizing right with
  | nil => cases right <;> simp [semanticEqFields, mergedFields]
  | cons field rest induction =>
      rcases field with ⟨name, value⟩
      cases right with
      | nil => simp [semanticEqFields, mergedFields]
      | cons other others =>
          rcases other with ⟨otherName, otherValue⟩
          have first := each (name, value) List.mem_cons_self otherValue
          have later := @induction others fun inner member =>
            each inner (List.mem_cons_of_mem _ member)
          rw [semanticEqFields, Bool.and_eq_true, Bool.and_eq_true, beq_iff_eq, first, later,
            mergedFields, mergedFields, List.cons.injEq, Prod.mk.injEq]

/-- Values are semantically equal just if they are one value when merged. -/
theorem semanticEq_iff_merged {left right : Value} :
    left.semanticEq right = true ↔ left.merged = right.merged := by
  induction left using Value.induction generalizing right with
  | scalar left scalar => exact semanticEq_iff_merged_scalar scalar right
  | array items induction =>
      cases right with
      | array others =>
          rw [semanticEq, semanticEqItems_iff fun item member other => induction item member,
            merged, merged, Value.array.injEq]
      | _ => simp [semanticEq, bareNumber?, same, merged]
  | document fields induction =>
      cases right with
      | document others =>
          rw [semanticEq, semanticEqFields_iff fun field member other => induction field member,
            merged, merged, Value.document.injEq]
      | _ => simp [semanticEq, bareNumber?, same, merged]

/-! ## Structural equality -/

theorem merged_of_same_scalar {left right : Value} (scalar : left.isContainer = false)
    (equal : left.same right = true) : left.merged = right.merged := by
  cases bare : left.bareNumber? with
  | none => exact (same_iff_merged scalar bare right).mp equal
  | some number =>
      have numbers {first second : Double} (equal : first.equal second = true) :
          (Value.number first.unsignedZero) = .number second.unsignedZero :=
        congrArg Value.number (equalNumbers_iff.mp (by rw [equalNumbers, equal, Bool.true_or]))
      cases left <;> cases bare <;> cases right <;> first | cases equal | skip
      · exact numbers equal
      · exact congrArg merged (congrArg Value.int (beq_iff_eq.mp equal))
      · exact numbers equal

theorem mergedItems_of_same {left right : List Value}
    (each : ∀ item ∈ left, ∀ other, item.same other = true → item.merged = other.merged)
    (equal : sameItems left right = true) : mergedItems left = mergedItems right := by
  induction left generalizing right with
  | nil =>
      cases right with
      | nil => rfl
      | cons other others => cases equal
  | cons item rest induction =>
      cases right with
      | nil => cases equal
      | cons other others =>
          rw [sameItems, Bool.and_eq_true] at equal
          rw [mergedItems, mergedItems, each item List.mem_cons_self other equal.1,
            induction (fun inner member => each inner (List.mem_cons_of_mem _ member)) equal.2]

theorem mergedFields_of_same {left right : List (String × Value)}
    (each : ∀ field ∈ left, ∀ other, field.2.same other = true → field.2.merged = other.merged)
    (equal : sameFields left right = true) : mergedFields left = mergedFields right := by
  induction left generalizing right with
  | nil =>
      cases right with
      | nil => rfl
      | cons other others => cases equal
  | cons field rest induction =>
      rcases field with ⟨name, value⟩
      cases right with
      | nil => cases equal
      | cons other others =>
          rcases other with ⟨otherName, otherValue⟩
          rw [sameFields, Bool.and_eq_true, Bool.and_eq_true, beq_iff_eq] at equal
          rw [mergedFields, mergedFields, equal.1.1,
            each (name, value) List.mem_cons_self otherValue equal.1.2,
            induction (fun inner member => each inner (List.mem_cons_of_mem _ member)) equal.2]

theorem merged_of_same {left right : Value} (equal : left.same right = true) :
    left.merged = right.merged := by
  induction left using Value.induction generalizing right with
  | scalar left scalar => exact merged_of_same_scalar scalar equal
  | array items induction =>
      cases right with
      | array others =>
          rw [merged, merged, mergedItems_of_same (fun item member other => induction item member)
            equal]
      | _ => cases equal
  | document fields induction =>
      cases right with
      | document others =>
          rw [merged, merged, mergedFields_of_same
            (fun field member other => induction field member) equal]
      | _ => cases equal

/-! ## Text -/

theorem isAbsent_merged (value : Value) : value.merged.isAbsent = value.isAbsent := by
  cases value <;> rfl

theorem writtenItems_mergedItems {items : List Value} {indent depth : Nat}
    (each : ∀ item ∈ items, item.merged.written indent depth = item.written indent depth) :
    writtenItems indent depth (mergedItems items) = writtenItems indent depth items := by
  induction items with
  | nil => rfl
  | cons item rest induction =>
      rw [mergedItems, writtenItems, writtenItems, isAbsent_merged,
        each item List.mem_cons_self,
        induction fun inner member => each inner (List.mem_cons_of_mem _ member)]

theorem writtenFields_mergedFields {fields : List (String × Value)} {indent depth : Nat}
    (each : ∀ field ∈ fields,
      field.2.merged.written indent depth = field.2.written indent depth) :
    writtenFields indent depth (mergedFields fields) = writtenFields indent depth fields := by
  induction fields with
  | nil => rfl
  | cons field rest induction =>
      rcases field with ⟨name, value⟩
      rw [mergedFields, writtenFields, writtenFields, isAbsent_merged,
        each (name, value) List.mem_cons_self,
        induction fun inner member => each inner (List.mem_cons_of_mem _ member)]

/-- Merging does not show in the text. -/
theorem written_merged (value : Value) (indent depth : Nat) :
    value.merged.written indent depth = value.written indent depth := by
  induction value using Value.induction generalizing depth with
  | scalar value scalar =>
      cases value with
      | number value => exact value.shellText_unsignedZero
      | double value => exact value.shellText_unsignedZero
      | int value =>
          have lower := value.le_toInt
          have upper := value.toInt_lt
          have small : value.toInt.natAbs < 10 ^ 15 := by omega
          rw [merged, written, written, Double.shellText_unsignedZero,
            Double.shellText_ofInt small]
      | array items => cases scalar
      | document fields => cases scalar
      | _ => rfl
  | array items induction =>
      rw [merged, written, written,
        writtenItems_mergedItems fun item member => induction item member (depth + 1)]
  | document fields induction =>
      rw [merged, written, written,
        writtenFields_mergedFields fun field member => induction field member (depth + 1)]

/-! ## The relation -/

/-- Semantic equality is an equivalence that is wider than structural equality, and values that
it relates are written alike. -/
theorem semanticEq_equivalence :
    Equivalence (fun left right : Value => left.semanticEq right = true) ∧
      (∀ left right : Value, left.same right = true → left.semanticEq right = true) ∧
      ∀ left right : Value, left.semanticEq right = true →
        ∀ indent, left.shellText indent = right.shellText indent := by
  refine ⟨⟨fun value => ?_, fun equal => ?_, fun first second => ?_⟩,
    fun left right equal => ?_, fun left right equal indent => ?_⟩
  · exact semanticEq_iff_merged.mpr rfl
  · exact semanticEq_iff_merged.mpr (semanticEq_iff_merged.mp equal).symm
  · exact semanticEq_iff_merged.mpr
      ((semanticEq_iff_merged.mp first).trans (semanticEq_iff_merged.mp second))
  · exact semanticEq_iff_merged.mpr (merged_of_same equal)
  · rw [shellText, shellText, ← written_merged left, ← written_merged right,
      semanticEq_iff_merged.mp equal]

/-- The integer zero and the negative zero, and a not-a-number with a kind and one without. -/
theorem semanticEq_equivalence_mixed :
    (array [.int 0, .double .nan]).semanticEq
        (array [.number (.finite true .zero), .number .nan]) = true ∧
      (array [.int 0, .double .nan]).shellText 2 =
        (array [.number (.finite true .zero), .number .nan]).shellText 2 := by
  have equal : (array [.int 0, .double .nan]).semanticEq
      (array [.number (.finite true .zero), .number .nan]) = true := by decide +kernel
  exact ⟨equal, semanticEq_equivalence.2.2 _ _ equal 2⟩

end Value

end DocShell
