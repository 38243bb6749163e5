import DocShell.Bridge.Export
import DocShell.Proofs.Text.Digits
import DocShell.Proofs.Value.Stability

namespace DocShell

/-! # Canonical data

What may be relied on in every value that is read from a text, spelled out without
reference to how it was read. -/

def LongText.Canonical (long : LongText) : Prop :=
  ∃ sign digits, long.text.toList = sign ++ digits ∧ sign ∈ [[], ['+'], ['-']] ∧
    digits ≠ [] ∧ (∀ digit ∈ digits, digit.isDigit = true) ∧
    long.value = (if sign = ['-'] then -1 else 1) * (Text.natOfDigits digits : Int) ∧
    FitsLong long.value

structure Pattern.Canonical (pattern : Pattern) : Prop where
  increasing : pattern.options.toList.Pairwise (· < ·)
  known : ∀ letter ∈ pattern.options.toList, letter ∈ "dgimsuvxy".toList
  closed : isClosed pattern.source = true
  noStar : pattern.source.toList.head? ≠ some '*'

/-! ## Scalars -/

theorem LongText.canonical (long : LongText) : long.Canonical := by
  have reads := long.reads
  have digits {text : List Char} {transform : Nat → Int}
      (read : (Text.nat? text).map transform = some long.value) :
      text ≠ [] ∧ (∀ digit ∈ text, digit.isDigit = true) ∧
        long.value = transform (Text.natOfDigits text) := by
    rcases Option.map_eq_some_iff.mp read with ⟨number, found, equal⟩
    rcases Text.exists_digits_of_nat? found with ⟨nonempty, all, rfl⟩
    exact ⟨nonempty, all, equal.symm⟩
  unfold Text.int? at reads
  split at reads
  · rename_i rest spelled
    rcases digits reads with ⟨nonempty, all, value⟩
    refine ⟨['-'], rest, spelled, by decide, nonempty, all, ?_, long.fits⟩
    rw [value, if_pos rfl, Int.neg_one_mul]
  · rename_i rest spelled
    rcases digits reads with ⟨nonempty, all, value⟩
    refine ⟨['+'], rest, spelled, by decide, nonempty, all, ?_, long.fits⟩
    rw [value, if_neg (by decide), Int.one_mul, Int.ofNat_eq_natCast]
  · rcases digits reads with ⟨nonempty, all, value⟩
    refine ⟨[], long.text.toList, rfl, by decide, nonempty, all, ?_, long.fits⟩
    rw [value, if_neg (by decide), Int.one_mul, Int.ofNat_eq_natCast]

theorem Pattern.canonical {pattern : Pattern} (sound : pattern.Sound)
    (literal : Literal pattern.source) : pattern.Canonical where
  increasing := by
    rcases sound.accepted with ⟨noStar, nodup, inside⟩
    have kept := sound
    rw [Sound, new?, if_pos ⟨noStar, nodup, all_optionLetters.mpr inside⟩] at kept
    have options := congrArg Pattern.options (Option.some.inj kept)
    dsimp only at options
    rw [← options, String.toList_ofList]
    exact List.Pairwise.sublist List.filter_sublist (by decide : optionLetters.Pairwise (· < ·))
  known := sound.accepted.2.2
  closed := literal.closed
  noStar := sound.accepted.1

namespace Value

def CanonicalHere : Value → Prop
  | .absent => False
  | .double _ => False
  | .number value => value.isFinite = true
  | .long digits => digits.Canonical
  | .decimal digits => DecimalText.parse digits.text = .ok digits
  | .date instant => instant.natAbs ≤ 8640000000000000
  | .regex pattern => pattern.Canonical
  | .binary data => ∃ bytes, Base64.decode? data.base64.toList = some bytes
  | .document fields => (Fields.names fields).Nodup
  | _ => True

def Canonical (value : Value) : Prop := value.Everywhere CanonicalHere

theorem canonical_of_decoded {value : Value} (decoded : value.Decoded) : value.Canonical := by
  refine Everywhere.imp decoded fun part here => ?_
  cases part with
  | absent => exact here
  | double number => exact here
  | number number => exact here
  | long digits => exact digits.canonical
  | decimal digits => exact DecimalText.parse_text digits
  | date instant => exact here
  | regex pattern => exact Pattern.canonical here.1 here.2
  | binary data => exact Option.isSome_iff_exists.mp data.decodes
  | document fields => exact here
  | _ => trivial

theorem canonical_document {fields : Fields Value} :
    (document fields).Canonical ↔
      (Fields.names fields).Nodup ∧ ∀ field ∈ fields, field.2.Canonical :=
  everywhere_document

theorem canonical_array {items : List Value} :
    (array items).Canonical ↔ ∀ item ∈ items, item.Canonical := by
  rw [Canonical, everywhere_array]
  exact and_iff_right trivial

/-! ## Making plain twice -/

theorem plain_orNull (value : Value) : value.orNull.plain = value.plain.orNull := by
  cases value with
  | number content =>
      change (number content).plain = (number content).plain.orNull
      rw [plain]
      split <;> rfl
  | _ => rfl

theorem isAbsent_orNull (value : Value) : value.orNull.isAbsent = false := by
  cases value <;> rfl

/-- What is plain stays as it is. -/
theorem plain_plain (value : Value) : value.plain.plain = value.plain := by
  induction value using Value.induction with
  | scalar value scalar =>
      cases value with
      | number number =>
          rw [plain]
          split
          · rename_i finite
            rw [plain, if_pos finite]
          · rfl
      | array items => cases scalar
      | document fields => cases scalar
      | _ => rfl
  | array items induction =>
      rw [plain, plain, plainItems_of_each]
      intro item member
      rcases mem_plainItems member with ⟨source, belongs, rfl⟩
      exact ⟨by rw [plain_orNull, induction source belongs], isAbsent_orNull _⟩
  | document fields induction =>
      rw [plain, plain, plainFields_of_each]
      intro field member
      rcases mem_plainFields member with ⟨source, belongs, rfl, present⟩
      exact ⟨induction source belongs, present⟩

/-! ## What is written of plain data -/

def FiniteHere : Value → Prop
  | .number value => value.isFinite = true
  | _ => True

def NumbersFinite (value : Value) : Prop := value.Everywhere FiniteHere

theorem toJson_orNull (value : Value) : value.orNull.toJson = value.toJson := by
  cases value <;> rfl

theorem isAbsent_plain (value : Value) : value.plain.isAbsent = value.isAbsent := by
  cases value with
  | number number =>
      rw [plain]
      split <;> rfl
  | _ => rfl

theorem itemsToJson_plainItems {items : List Value}
    (each : ∀ item ∈ items, item.plain.toJson = item.toJson) :
    itemsToJson (plainItems items) = itemsToJson items := by
  induction items with
  | nil => rfl
  | cons item rest induction =>
      rw [plainItems, itemsToJson, itemsToJson, toJson_orNull, each item List.mem_cons_self,
        induction fun other member => each other (List.mem_cons_of_mem _ member)]

theorem fieldsToJson_plainFields {fields : List (String × Value)}
    (each : ∀ field ∈ fields, field.2.plain.toJson = field.2.toJson) :
    fieldsToJson (plainFields fields) = fieldsToJson fields := by
  induction fields with
  | nil => rfl
  | cons field rest induction =>
      rcases field with ⟨name, value⟩
      have later := induction fun other member => each other (List.mem_cons_of_mem _ member)
      rw [plainFields_cons, isAbsent_plain, fieldsToJson]
      split
      · exact later
      · rename_i present
        have equal : value.plain.toJson = value.toJson := each (name, value) List.mem_cons_self
        rw [fieldsToJson, isAbsent_plain, if_neg present, equal, later]

/-- JSON leaves out what making plain leaves out, so it stays the same. -/
theorem toJson_plain {value : Value} (finite : value.NumbersFinite) :
    value.plain.toJson = value.toJson := by
  induction value using Value.induction with
  | scalar value scalar =>
      cases value with
      | number number =>
          have here : number.isFinite = true := finite
          rw [plain, if_pos here]
      | array items => cases scalar
      | document fields => cases scalar
      | _ => rfl
  | array items induction =>
      have inside := (everywhere_array.mp finite).2
      rw [plain, toJson, toJson,
        itemsToJson_plainItems fun item member => induction item member (inside item member)]
  | document fields induction =>
      have inside := (everywhere_document.mp finite).2
      rw [plain, toJson, toJson,
        fieldsToJson_plainFields fun field member => induction field member (inside field member)]

end Value

end DocShell
