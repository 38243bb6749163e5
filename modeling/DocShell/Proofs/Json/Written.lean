import DocShell.Proofs.Json.Parts
import DocShell.Proofs.Json.RoundTrip
import DocShell.Proofs.Number.ReadBack

namespace DocShell

/-! # Written JSON

Integers have no point and no exponent, and the text of a float always has one of the two.
So the two kinds of numbers are told apart again, and the compact text of JSON with such
numbers is read as that JSON. -/

/-! ## The spelling of floats -/

namespace Spelling

/-- The same number with a fraction, be it no more than a zero. -/
def pointed (spelling : Spelling) : Spelling :=
  { spelling with fraction := some (spelling.fraction.getD ['0']) }

structure IsFloat (spelling : Spelling) : Prop where
  filled : spelling.fraction ≠ some []
  marked : ¬(spelling.fraction = none ∧ spelling.exponent = none)

theorem toDouble_pointed (spelling : Spelling) (negative : Bool) :
    spelling.pointed.numeral.toDouble negative = spelling.numeral.toDouble negative := by
  rcases spelling with ⟨whole, _ | fraction, exponent⟩
  · have number : Text.natOfDigits (whole ++ ['0']) = Text.natOfDigits whole * 10 ^ 1 :=
      Text.natOfDigits_append_zeros whole 1
    simp only [pointed, numeral, Numeral.toDouble, Numeral.digits, Option.getD_some,
      Option.getD_none, List.append_nil, List.length_singleton, List.length_nil]
    rw [number, Double.ofDecimal_mul_pow]
    congr 1
    omega
  · rfl

theorem sound_pointed {spelling : Spelling} (sound : spelling.Sound) :
    spelling.pointed.Sound where
  nonempty := sound.nonempty
  exponentSound := sound.exponentSound
  wholeDigits := sound.wholeDigits
  fractionDigits := by
    intro digits member
    cases member
    cases fraction : spelling.fraction with
    | none => exact fun digit single => List.mem_singleton.mp single ▸ rfl
    | some digits => exact sound.fractionDigits digits fraction
  leading := sound.leading

end Spelling

namespace Decimal

theorem text_pointed (decimal : Decimal) :
    decimal.positionalSpelling.pointed.text = decimal.positional ['.', '0'] := by
  simp only [positionalSpelling, positional]
  split
  · simp [Spelling.pointed, Spelling.text, Spelling.fractionText, Spelling.exponentText]
  · split <;> simp [Spelling.pointed, Spelling.text, Spelling.fractionText, Spelling.exponentText]

theorem isFloat_pointed {decimal : Decimal} (nonempty : decimal.digits ≠ []) :
    decimal.positionalSpelling.pointed.IsFloat := by
  refine ⟨fun empty => ?_, fun bare => Option.some_ne_none _ bare.1⟩
  have empty := Option.some.inj empty
  simp only [positionalSpelling] at empty
  split at empty
  · exact nonempty (List.append_eq_nil_iff.mp empty).2
  split at empty
  · have short := List.drop_eq_nil_iff.mp empty
    omega
  · exact List.cons_ne_nil _ _ empty

theorem isFloat_scientificSpelling (decimal : Decimal) : decimal.scientificSpelling.IsFloat := by
  refine ⟨fun empty => ?_, fun bare => Option.some_ne_none _ bare.2⟩
  simp only [scientificSpelling] at empty
  split at empty
  · cases empty
  · rename_i filled
    exact filled (Option.some.inj empty)

end Decimal

/-- JSON spells every magnitude as a float, which is read back as it. -/
theorem NumberLayout.exists_spelling_json (magnitude : Magnitude) :
    ∃ spelling : Spelling, spelling.Sound ∧ spelling.IsFloat ∧
      NumberLayout.json.write magnitude = spelling.text ∧
      spelling.numeral.toDouble false = .finite false magnitude := by
  have sound := magnitude.sound_shortest NumberLayout.json.tie
  have double := magnitude.toDouble_shortest NumberLayout.json.tie
  simp only [NumberLayout.write]
  generalize magnitude.shortest NumberLayout.json.tie = decimal at sound double
  split
  · refine ⟨decimal.positionalSpelling.pointed,
      Spelling.sound_pointed (Decimal.sound_positionalSpelling sound),
      Decimal.isFloat_pointed sound.nonempty, decimal.text_pointed.symm, ?_⟩
    rw [Spelling.toDouble_pointed,
      Numeral.toDouble_eq_of_value decimal.value_positionalSpelling, double]
  · refine ⟨decimal.scientificSpelling, Decimal.sound_scientificSpelling sound,
      decimal.isFloat_scientificSpelling, decimal.text_scientificSpelling.symm, ?_⟩
    rw [Numeral.toDouble_eq_of_value (Decimal.value_scientificSpelling sound.nonempty), double]

namespace Json

open Text

/-! ## Numbers read back -/

theorem readsAs_spelling (room : Nat) {spelling : Spelling} (negative : Bool) {json : Json}
    (sound : spelling.Sound) (filled : spelling.fraction ≠ some [])
    (made : ofSpelling? negative spelling = some json) :
    ReadsAs room (signedText negative spelling) json :=
  ⟨.number negative spelling, ⟨sound, filled, rfl⟩, made⟩

theorem readsAs_integer (room : Nat) {number : Int} (lower : -2 ^ 63 ≤ number)
    (upper : number < 2 ^ 64) : ReadsAs room (Text.ofInt number) (.integer number) := by
  have made : ofDigits? (decide (number < 0)) (Text.ofNat number.natAbs) =
      some (.integer number) := by
    rw [ofDigits?, Text.natOfDigits_ofNat]
    by_cases negative : number < 0
    · rw [if_pos ⟨decide_eq_true negative, by omega, by omega⟩]
      congr 2
      omega
    · have unsigned : ¬decide (number < 0) = true := by simpa using negative
      rw [if_neg fun signed => unsigned signed.1, if_pos ⟨unsigned, by omega⟩]
      congr 2
      omega
  have reads := readsAs_spelling room (decide (number < 0)) (Spelling.sound_ofNat number.natAbs)
    (by simp [Spelling.ofNat]) ((if_pos ⟨rfl, rfl⟩).trans made)
  rw [signedText, Spelling.text_ofNat] at reads
  simpa only [Text.ofInt, decide_eq_true_eq] using reads

theorem readsAs_float (room : Nat) {number : Double} (finite : number.isFinite = true) :
    ReadsAs room number.jsonText (.float number) := by
  cases number with
  | finite negative magnitude =>
      rcases NumberLayout.exists_spelling_json magnitude with ⟨spelling, sound, float, text, double⟩
      have signed : spelling.numeral.toDouble negative = .finite negative magnitude := by
        cases negative with
        | false => exact double
        | true =>
            rw [← Bool.not_false, ← Numeral.neg_toDouble, double]
            rfl
      have made : finite? (spelling.numeral.toDouble negative) =
          some (.float (.finite negative magnitude)) := by
        rw [signed]
        rfl
      have reads := readsAs_spelling room negative sound float.filled
        ((if_neg float.marked).trans made)
      rw [signedText, ← text] at reads
      exact reads
  | nan => cases finite
  | infinity negative => cases finite

/-! ## Texts as a whole -/

/-- JSON whose numbers are doubles, with the integers in their exact range, and whose objects
repeat no name. -/
inductive Exact : Json → Prop
  | null : Exact .null
  | bool (value : Bool) : Exact (.bool value)
  | integer {value : Int} (small : value.natAbs ≤ Double.exactLimit) : Exact (.integer value)
  | float {value : Double} (finite : value.isFinite = true) : Exact (.float value)
  | string (text : String) : Exact (.string text)
  | array {items : List Json} (each : ∀ item ∈ items, Exact item) : Exact (.array items)
  | object {members : List (String × Json)} (distinct : (Fields.names members).Nodup)
      (each : ∀ member ∈ members, Exact member.2) : Exact (.object members)

theorem Exact.wrapped (name : String) {inner : Json} (exact : inner.Exact) :
    (Json.wrapped name inner).Exact :=
  .object (List.nodup_cons.mpr ⟨List.not_mem_nil, List.nodup_nil⟩) fun _ member =>
    List.mem_singleton.mp member ▸ exact

theorem readEach_write {room depth : Nat} {items : List Json}
    (each : ∀ item ∈ items, ∀ depth, ReadsAs room (item.write .compact depth) item) :
    ReadEach room (writeItems .compact depth items) items := by
  induction items with
  | nil => exact .nil
  | cons item rest induction =>
      exact .cons (each item List.mem_cons_self (depth + 1))
        (induction fun other member => each other (List.mem_cons_of_mem _ member))

theorem readMembers_write {room depth : Nat} {members : List (String × Json)}
    (each : ∀ member ∈ members, ∀ depth,
      ReadsAs room (member.2.write .compact depth) member.2) :
    ReadMembers room (writeMembers .compact depth members) members := by
  induction members with
  | nil => exact .nil
  | cons member rest induction =>
      rcases member with ⟨name, value⟩
      have first := each (name, value) List.mem_cons_self (depth + 1)
      have later := induction fun other member => each other (List.mem_cons_of_mem _ member)
      rw [writeMembers, Style.colon, List.append_assoc, List.singleton_append]
      exact .cons name first later

theorem readsAs_write {json : Json} (exact : json.Exact) {room : Nat}
    (shallow : json.depth ≤ room) (depth : Nat) :
    ReadsAs room (json.write .compact depth) json := by
  induction exact generalizing room depth with
  | null => exact ⟨.null, rfl, rfl⟩
  | bool value => exact ⟨.bool value, by cases value <;> rfl, rfl⟩
  | integer small =>
      have bound : Double.exactLimit = 9007199254740992 := rfl
      exact readsAs_integer room (by omega) (by omega)
  | float finite => exact readsAs_float room finite
  | string text => exact readsAs_string room text
  | @array items each induction =>
      rw [Json.depth, Nat.add_comm] at shallow
      cases room with
      | zero => omega
      | succ room =>
          have inside := depthItems_le.mp (Nat.le_of_succ_le_succ shallow)
          exact readsAs_array (readEach_write fun item member depth =>
            induction item member (inside item member) depth)
  | @object members distinct each induction =>
      rw [Json.depth, Nat.add_comm] at shallow
      cases room with
      | zero => omega
      | succ room =>
          have inside := depthMembers_le.mp (Nat.le_of_succ_le_succ shallow)
          exact readsAs_object (readMembers_write fun member belongs depth =>
            induction member belongs (inside member belongs) depth) distinct

/-- Compact text within the limit on levels is read as the JSON that it was written of. -/
theorem parse?_compactText {json : Json} (exact : json.Exact)
    (shallow : json.depth ≤ depthLimit) : parse? json.compactText = some json :=
  parse?_of_readsAs (readsAs_write exact shallow 0)

end Json

end DocShell
