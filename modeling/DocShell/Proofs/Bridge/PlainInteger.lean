import DocShell.Bridge.Document
import DocShell.Proofs.Bridge.Place

namespace DocShell

/-! # Plain integers of JSON

An integer reaches the value as an integer only if 64 bits hold it, signed or not. Only then
is it kept or refused, wherever it stands; beyond that it is the nearest double, and goes
unnoticed. -/

/-- A sign and digits, without superfluous zeros. -/
structure IntegerLiteral where
  negative : Bool
  digits : List Char
  sound : Spelling.Sound ⟨digits, none, none⟩

namespace IntegerLiteral

open Json.Source (path Frame)

def value (literal : IntegerLiteral) : ℤ :=
  if literal.negative then -(Text.natOfDigits literal.digits : ℤ)
  else Text.natOfDigits literal.digits

def source (literal : IntegerLiteral) : Json.Source :=
  .number literal.negative ⟨literal.digits, none, none⟩

def FitsWord (literal : IntegerLiteral) : Prop :=
  -2 ^ 63 ≤ literal.value ∧ literal.value < 2 ^ 64

instance (literal : IntegerLiteral) : Decidable literal.FitsWord :=
  inferInstanceAs (Decidable (_ ∧ _))

def zero : IntegerLiteral :=
  ⟨false, ['0'], ⟨⟨List.all_eq_true.mp rfl, nofun, nofun⟩, by decide, by decide⟩⟩

/-- The literal is written at a place of a text to which no typed value leads. -/
structure StandsIn (literal : IntegerLiteral) (frames : List Frame) (text : String) : Prop where
  written : (literal.source.within frames).WrittenAs text
  opened : ∀ json, Json.parse? text = some json → json.OpenTo (path frames)

/-- Nothing but what stands at a place can be the first to fail. Were it a zero, the text would
be JSON in which all that comes before it is read. -/
def Clear (frames : List Frame) : Prop :=
  ∃ json, (zero.source.within frames).json? Json.depthLimit = some json ∧
    ∀ other ∈ json.before (path frames), ∃ value, Value.ofJson other = .ok value

/-- The value has the very integer at its place, and there is none if doubles do not tell the
integer from its neighbours. -/
structure Kept (literal : IntegerLiteral) (frames : List Frame) (text : String) : Prop where
  exact : ∀ value, Value.ofJsonText text = .ok value → ∃ number,
    value.at? (path frames) = some (.number number) ∧ number.toInt? = some literal.value
  refused : Double.exactLimit < literal.value.natAbs → Clear frames →
    Value.ofJsonText text = .error (.precision (.jsonInteger literal.value))

/-! ## The literal by itself -/

theorem json?_source (literal : IntegerLiteral) (room : Nat) :
    literal.source.json? room = Json.ofDigits? literal.negative literal.digits := by
  rw [source, Json.Source.json?, Json.ofSpelling?, if_pos ⟨rfl, rfl⟩]

theorem ofInteger_eq {number : ℤ} :
    (number.natAbs ≤ Double.exactLimit → ∃ double,
      Value.ofJson (.integer number) = .ok (.number double) ∧ double.toInt? = some number) ∧
    (Double.exactLimit < number.natAbs →
      Value.ofJson (.integer number) = .error (.precision (.jsonInteger number))) := by
  rw [Value.ofJson, Value.ofInteger]
  constructor
  · intro small
    exact ⟨Double.ofInt number, if_pos small, Double.toInt?_ofInt small⟩
  · intro large
    exact if_neg (Nat.not_le.mpr large)

/-- Within 64 bits the literal is read, either exactly or not at all. -/
theorem exists_of_fitsWord {literal : IntegerLiteral} (fits : literal.FitsWord) :
    ∃ json, Json.ofDigits? literal.negative literal.digits = some json ∧
      (literal.value.natAbs ≤ Double.exactLimit → ∃ number,
        Value.ofJson json = .ok (.number number) ∧ number.toInt? = some literal.value) ∧
      (Double.exactLimit < literal.value.natAbs →
        Value.ofJson json = .error (.precision (.jsonInteger literal.value))) := by
  rcases literal with ⟨negative, digits, sound⟩
  simp only [FitsWord, value] at fits ⊢
  rw [Json.ofDigits?]
  generalize Text.natOfDigits digits = size at fits ⊢
  cases negative with
  | false =>
      simp only [Bool.false_eq_true, if_false] at fits ⊢
      refine ⟨.integer size, ?_, ofInteger_eq⟩
      simp only [false_and, if_false, not_false_eq_true, true_and]
      exact if_pos (by omega)
  | true =>
      simp only [if_true] at fits ⊢
      by_cases isZero : size = 0
      · -- minus zero is a double from the start
        subst isZero
        have minusZero : Double.ofDecimal true 0 0 = .finite true .zero := by decide +kernel
        have whole : (Double.finite true .zero).toInt? = some 0 := by decide +kernel
        refine ⟨.float (.finite true .zero), ?_, fun _ => ⟨_, rfl, whole⟩,
          fun large => absurd large (by decide)⟩
        simp [Json.finite?, minusZero, Double.isFinite]
      · exact ⟨.integer (-size), if_pos ⟨trivial, isZero, by omega⟩, ofInteger_eq⟩

/-- Beyond 64 bits the literal is the nearest double, if it is anything. -/
theorem eq_float_of_not_fitsWord {literal : IntegerLiteral} (beyond : ¬literal.FitsWord)
    {json : Json} (made : Json.ofDigits? literal.negative literal.digits = some json) :
    json = .float (Double.ofDecimal literal.negative (Text.natOfDigits literal.digits) 0) := by
  rcases literal with ⟨negative, digits, sound⟩
  simp only [FitsWord, value] at beyond
  simp only [Json.ofDigits?] at made ⊢
  generalize Text.natOfDigits digits = size at beyond made ⊢
  split at made
  · rename_i signed
    rw [if_pos signed.1] at beyond
    omega
  · split at made
    · rename_i unsigned
      rw [if_neg unsigned.1] at beyond
      omega
    · rw [Json.finite?] at made
      split at made
      · cases made
        rfl
      · cases made

theorem lt_natAbs_of_not_fitsWord {literal : IntegerLiteral} (beyond : ¬literal.FitsWord) :
    Double.exactLimit < literal.value.natAbs := by
  rw [FitsWord] at beyond
  rw [Double.exactLimit]
  omega

def text (literal : IntegerLiteral) : String :=
  String.ofList (Json.signedText literal.negative ⟨literal.digits, none, none⟩)

theorem writtenAs_text (literal : IntegerLiteral) : literal.source.WrittenAs literal.text :=
  ⟨[], _, [], nofun, ⟨literal.sound, nofun, rfl⟩, nofun, by
    rw [text, String.toList_ofList, List.append_nil, List.nil_append]⟩

theorem parse?_text (literal : IntegerLiteral) :
    Json.parse? literal.text = Json.ofDigits? literal.negative literal.digits :=
  (Json.Source.parse?_of_writtenAs literal.writtenAs_text).trans (literal.json?_source _)

theorem standsIn_text (literal : IntegerLiteral) : literal.StandsIn [] literal.text where
  written := literal.writtenAs_text
  opened := by
    intro json read front members inside reached
    cases List.prefix_nil.mp inside
    cases reached
    have flat := Json.depth_of_ofDigits? (literal.parse?_text.symm.trans read)
    rw [Json.depth] at flat
    omega

theorem clear_nil : Clear [] :=
  ⟨.integer 0, (zero.json?_source _).trans rfl, nofun⟩

/-! ## The literal in a text -/

variable {literal : IntegerLiteral} {frames : List Frame} {text : String}

/-- What is read of a text has at the place what the literal by itself is read as. -/
theorem StandsIn.exists_at? (stands : literal.StandsIn frames text) {value : Value}
    (accepted : Value.ofJsonText text = .ok value) :
    ∃ part inner, Json.ofDigits? literal.negative literal.digits = some part ∧
      Value.ofJson part = .ok inner ∧ value.at? (path frames) = some inner := by
  rw [Value.ofJsonText] at accepted
  split at accepted
  · rename_i json read
    have denotes := (Json.Source.parse?_of_writtenAs stands.written).symm.trans read
    rcases Json.Source.exists_of_within frames denotes with ⟨part, found, place, _⟩
    rcases Value.exists_at? (Json.distinct_of_parse? read) (stands.opened json read) accepted
      place with ⟨inner, inner_read, inner_place⟩
    exact ⟨part, inner, (literal.json?_source _).symm.trans found, inner_read, inner_place⟩
  · cases accepted

theorem kept_of_fitsWord (fits : literal.FitsWord) (stands : literal.StandsIn frames text) :
    literal.Kept frames text := by
  rcases exists_of_fitsWord fits with ⟨part, made, small, large⟩
  constructor
  · intro value accepted
    rcases stands.exists_at? accepted with ⟨other, inner, found, inner_read, place⟩
    cases made.symm.trans found
    rcases Nat.lt_or_ge Double.exactLimit literal.value.natAbs with exceeds | within
    · cases (large exceeds).symm.trans inner_read
    · rcases small within with ⟨number, number_read, exact⟩
      cases number_read.symm.trans inner_read
      exact ⟨number, place, exact⟩
  · rintro exceeds ⟨json, read, clear⟩
    rcases Json.Source.exists_of_within frames read with ⟨_, _, _, around⟩
    rcases around literal.source part ((literal.json?_source _).trans made) with
      ⟨changed, changed_read, place, same⟩
    have read := (Json.Source.parse?_of_writtenAs stands.written).trans changed_read
    rw [Value.ofJsonText, read]
    exact Value.ofJson_eq_error (stands.opened changed read) (same ▸ clear) place (large exceeds)

/-- Beyond 64 bits not even the text of the literal alone is refused as it should be. -/
theorem not_kept_of_not_fitsWord (beyond : ¬literal.FitsWord) :
    ¬literal.Kept [] literal.text := by
  intro kept
  have failed := kept.refused (lt_natAbs_of_not_fitsWord beyond) clear_nil
  rw [Value.ofJsonText, literal.parse?_text] at failed
  cases made : Json.ofDigits? literal.negative literal.digits with
  | none =>
      rw [made] at failed
      cases failed
  | some json =>
      rw [made, eq_float_of_not_fitsWord beyond made] at failed
      cases failed

/-- Just the literals that fit into 64 bits are kept in all texts. -/
theorem kept_iff_fitsWord (literal : IntegerLiteral) :
    (∀ frames text, literal.StandsIn frames text → literal.Kept frames text) ↔
      literal.FitsWord := by
  constructor
  · intro kept
    by_contra beyond
    exact not_kept_of_not_fitsWord beyond (kept [] literal.text literal.standsIn_text)
  · intro fits frames text stands
    exact kept_of_fitsWord fits stands

/-- The integer `2 ^ 64 + 1` is read as the double below it. -/
theorem not_kept :
    ¬∀ (literal : IntegerLiteral) (frames : List Frame) (text : String),
      literal.StandsIn frames text → literal.Kept frames text := by
  intro kept
  let literal : IntegerLiteral := ⟨false, "18446744073709551617".toList,
    ⟨⟨List.all_eq_true.mp rfl, nofun, nofun⟩, by decide, by decide⟩⟩
  have beyond : ¬literal.FitsWord := by decide
  exact not_kept_of_not_fitsWord beyond (kept literal [] literal.text literal.standsIn_text)

end IntegerLiteral

end DocShell
