import DocShell.Bridge.Import
import DocShell.Evaluation.Constructor
import DocShell.Proofs.Scalar.DecimalText

namespace DocShell

/-! # Decimals that fit into 128 bits

A decimal of 128 bits is a whole number of at most 34 digits times a power of ten from
`-6176` to `6111`. An accepted text may denote a number that is no such product: its
power has to agree with the count of its digits and with the zeros at their end. -/

/-- The numbers that the interchange format with 34 digits holds. -/
def FitsDecimal (value : ℚ) : Prop :=
  ∃ coefficient exponent : ℤ, coefficient.natAbs < 10 ^ DecimalText.digitLimit ∧
    -6176 ≤ exponent ∧ exponent ≤ 6111 ∧ value = coefficient * 10 ^ exponent

theorem FitsDecimal.neg {value : ℚ} (fits : FitsDecimal value) : FitsDecimal (-value) := by
  rcases fits with ⟨coefficient, exponent, short, least, greatest, rfl⟩
  refine ⟨-coefficient, exponent, by rwa [Int.natAbs_neg], least, greatest, ?_⟩
  push_cast
  ring

theorem fitsDecimal_appliedAll (signs : List Sign) (value : ℚ) :
    FitsDecimal (Sign.appliedAll signs value) ↔ FitsDecimal value := by
  rw [Sign.appliedAll_eq]
  split
  · exact ⟨fun fits => neg_neg value ▸ fits.neg, FitsDecimal.neg⟩
  · exact Iff.rfl

/-- A coefficient without a sign is enough for a number without one. -/
theorem fitsDecimal_natCast_mul {significand : ℕ} {scale : ℤ} :
    FitsDecimal (significand * 10 ^ scale) ↔
      ∃ (coefficient : ℕ) (exponent : ℤ), coefficient < 10 ^ DecimalText.digitLimit ∧
        -6176 ≤ exponent ∧ exponent ≤ 6111 ∧
          (significand : ℚ) * 10 ^ scale = coefficient * 10 ^ exponent := by
  constructor
  · rintro ⟨coefficient, exponent, short, least, greatest, equal⟩
    refine ⟨coefficient.natAbs, exponent, short, least, greatest, ?_⟩
    have nonneg : (0 : ℚ) ≤ coefficient := by
      refine nonneg_of_mul_nonneg_left ?_ (ten_zpow_pos exponent)
      rw [← equal]
      exact mul_nonneg (Nat.cast_nonneg _) (ten_zpow_pos scale).le
    have same : ((coefficient.natAbs : ℤ) : ℚ) = coefficient := by
      rw [Int.natAbs_of_nonneg (by exact_mod_cast nonneg)]
    rw [equal, ← same]
    rfl
  · rintro ⟨coefficient, exponent, short, least, greatest, equal⟩
    exact ⟨coefficient, exponent, short, least, greatest, equal⟩

def InDecimalRange (significand : ℕ) (scale : ℤ) : Prop :=
  significand = 0 ∨
    ((Text.ofNat significand).length + scale ≤ 6145 ∧ 10 ^ (-6176 - scale).toNat ∣ significand)

instance (significand : ℕ) (scale : ℤ) : Decidable (InDecimalRange significand scale) := by
  unfold InDecimalRange
  infer_instance

/-- A number that fits is below the largest power of ten, however it is written. -/
theorem length_add_le_of_mul_zpow_eq {significand coefficient : ℕ} {scale exponent : ℤ}
    (positive : 0 < significand) (short : coefficient < 10 ^ DecimalText.digitLimit)
    (same : (significand : ℚ) * 10 ^ scale = coefficient * 10 ^ exponent) :
    (Text.ofNat significand).length + scale ≤ DecimalText.digitLimit + exponent := by
  have lower : ((10 : ℚ) ^ ((Text.ofNat significand).length - 1)) ≤ significand := by
    exact_mod_cast Text.pow_length_le_ofNat positive
  have upper : (coefficient : ℚ) < 10 ^ DecimalText.digitLimit := by exact_mod_cast short
  have powers : (10 : ℚ) ^ (((Text.ofNat significand).length - 1 : ℕ) + scale) <
      10 ^ ((DecimalText.digitLimit : ℤ) + exponent) := by
    rw [ten_zpow_add, ten_zpow_add, zpow_natCast, zpow_natCast]
    calc (10 : ℚ) ^ ((Text.ofNat significand).length - 1) * 10 ^ scale
        ≤ significand * 10 ^ scale := mul_le_mul_of_nonneg_right lower (ten_zpow_pos scale).le
      _ = coefficient * 10 ^ exponent := same
      _ < 10 ^ DecimalText.digitLimit * 10 ^ exponent :=
          mul_lt_mul_of_pos_right upper (ten_zpow_pos exponent)
  have exponents := (zpow_lt_zpow_iff_right₀ (by norm_num : (1 : ℚ) < 10)).mp powers
  omega

theorem inDecimalRange_of_fits {significand : ℕ} {scale : ℤ}
    (fits : FitsDecimal (significand * 10 ^ scale)) : InDecimalRange significand scale := by
  rcases fitsDecimal_natCast_mul.mp fits with
    ⟨coefficient, exponent, short, least, greatest, same⟩
  rcases Nat.eq_zero_or_pos significand with zero | positive
  · exact .inl zero
  refine .inr ⟨?_, ?_⟩
  · have bound := length_add_le_of_mul_zpow_eq positive short same
    rw [DecimalText.digitLimit] at bound
    omega
  · by_cases small : scale ≤ exponent
    · rw [eq_mul_pow_of_mul_zpow_eq small same]
      exact Dvd.dvd.mul_left (pow_dvd_pow 10 (by omega)) coefficient
    · rw [show (-6176 - scale).toNat = 0 by omega, pow_zero]
      exact one_dvd significand

theorem fits_of_inDecimalRange {significand : ℕ} {scale : ℤ}
    (short : significand < 10 ^ DecimalText.digitLimit) (range : InDecimalRange significand scale) :
    FitsDecimal (significand * 10 ^ scale) := by
  rcases range with rfl | ⟨size, divides⟩
  · exact ⟨0, 0, by decide, by decide, by decide, by simp⟩
  rcases lt_or_ge 6111 scale with high | notHigh
  · -- the power goes into the coefficient as far as it is too large
    refine fitsDecimal_natCast_mul.mpr
      ⟨significand * 10 ^ (scale - 6111).toNat, 6111, ?_, by decide, le_refl _, ?_⟩
    · rcases Nat.eq_zero_or_pos significand with rfl | positive
      · rw [zero_mul]
        exact Nat.pow_pos (by decide)
      · rw [← Text.length_ofNat_le_iff (by decide), Text.length_ofNat_mul_pow positive,
          DecimalText.digitLimit]
        omega
    · rw [mul_pow_mul_zpow]
      congr 2
      omega
  rcases lt_or_ge scale (-6176) with low | notLow
  · -- zeros at the end of the significand make up for a power that is too small
    rcases divides with ⟨coefficient, rfl⟩
    rw [mul_comm _ coefficient] at short ⊢
    refine fitsDecimal_natCast_mul.mpr ⟨coefficient, -6176, ?_, le_refl _, by decide, ?_⟩
    · exact lt_of_le_of_lt (Nat.le_mul_of_pos_right _ (Nat.pow_pos (by decide))) short
    · rw [mul_pow_mul_zpow]
      congr 2
      omega
  · exact fitsDecimal_natCast_mul.mpr ⟨significand, scale, short, notLow, notHigh, rfl⟩

namespace WrittenDecimal

/-- A text is one numeral behind one sign only, up to the letter of its exponent. -/
theorem eq_of_text_eq {left right : WrittenDecimal} (same : left.text = right.text) :
    left.sign = right.sign ∧ left.spelling.numeral = right.spelling.numeral := by
  have unsigned : left.spelling.text = right.spelling.text := by
    rw [← unsigned_text, ← unsigned_text, same]
  refine ⟨?_, ?_⟩
  · rw [text, text, unsigned] at same
    have signs := List.append_cancel_right same
    rcases left with ⟨_ | _ | _, _⟩ <;> rcases right with ⟨_ | _ | _, _⟩ <;>
      first | rfl | cases signs
  · have first := Spelling.take?_text left.formed left.nonempty Token.apart_nil
    have second := Spelling.take?_text right.formed right.nonempty Token.apart_nil
    rw [unsigned, second, Option.some.injEq, Prod.mk.injEq] at first
    exact first.1.symm

def InRange (written : WrittenDecimal) : Prop :=
  InDecimalRange written.significand written.scale

theorem fitsDecimal_value_iff {written : WrittenDecimal} (accepted : written.Accepted) :
    FitsDecimal written.value ↔ written.InRange := by
  rw [value, fitsDecimal_appliedAll]
  exact ⟨inDecimalRange_of_fits, fits_of_inDecimalRange accepted.1⟩

end WrittenDecimal

namespace DecimalText

def Fits (text : String) : Prop :=
  ∃ written : WrittenDecimal, text = String.ofList written.text ∧ FitsDecimal written.value

/-- The digits and the power of a numeral are small enough, but not together. -/
def Overreaches (text : String) : Prop :=
  ∃ written : WrittenDecimal, text = String.ofList written.text ∧ written.Accepted ∧
    ¬written.InRange

theorem exists_parse_iff {text : String} :
    (∃ digits, parse text = .ok digits) ↔ fault? text = none := by
  unfold parse
  constructor
  · rintro ⟨digits, parsed⟩
    split at parsed
    · rename_i sound
      exact sound
    · cases parsed
  · intro sound
    split
    · exact ⟨_, rfl⟩
    · rename_i fault failed
      rw [sound] at failed
      cases failed

theorem parse_eq_error {text : String} {fault : NumberFault} (failed : fault? text = some fault) :
    parse text = .error fault := by
  unfold parse
  split
  · rename_i sound
    rw [failed] at sound
    cases sound
  · rename_i other found
    rw [failed] at found
    cases found
    rfl

theorem fits_of_accepted {text : String} (accepted : fault? text = none)
    (within : ¬Overreaches text) : IsWord text ∨ Fits text := by
  have wellFormed : fault? text ≠ some .malformed := by rw [accepted]; exact nofun
  refine (isWord_or_written wellFormed).imp_right fun numeral => ?_
  rcases numeral with ⟨written, rfl⟩
  rcases written.fault?_text with ⟨_, held⟩ | ⟨refused, _⟩
  · refine ⟨written, rfl, (WrittenDecimal.fitsDecimal_value_iff held).mpr ?_⟩
    by_contra outside
    exact within ⟨written, rfl, held, outside⟩
  · rw [accepted] at refused
    cases refused

theorem not_fits_of_overreaches {text : String} (beyond : Overreaches text) :
    fault? text = none ∧ ¬IsWord text ∧ ¬Fits text := by
  rcases beyond with ⟨written, rfl, held, outside⟩
  refine ⟨?_, written.not_isWord, ?_⟩
  · exact written.fault?_text.elim And.left fun refused => absurd held refused.2
  · rintro ⟨other, same, fits⟩
    rcases WrittenDecimal.eq_of_text_eq (String.ofList_injective same) with ⟨signs, numerals⟩
    refine outside ((WrittenDecimal.fitsDecimal_value_iff held).mp ?_)
    rwa [WrittenDecimal.value, signs, numerals]

def IsNumeral (text : String) : Prop :=
  ∃ written : WrittenDecimal, text = String.ofList written.text

/-- Everything that reads decimals reports that the number of the text does not fit. -/
structure Refused (text : String) : Prop where
  parsed : parse text = .error .outOfRange
  built : ∀ call place spelling others,
    Constructor.build .decimal call (⟨.string text, place, spelling⟩ :: others) =
      .error (.precision (.decimalText text))
  imported : Value.ofJson (.object [("$numberDecimal", .string text)]) =
    .error (.precision (.jsonDecimal text))

theorem refused_of_fault? {text : String} (failed : fault? text = some .outOfRange) :
    Refused text := by
  have parsed := parse_eq_error failed
  refine ⟨parsed, fun call place spelling others => ?_, ?_⟩
  · simp only [Constructor.build, List.getElem?_cons_zero, Option.getD_some,
      Constructor.buildDecimal, Constructor.decimalDigits, bind, Except.bind, parsed]
  · have read : Value.decimalOfText (.string text) text =
        .error (.precision (.jsonDecimal text)) := by rw [Value.decimalOfText, parsed]
    rw [Value.ofJson]
    change (Value.decimalOfText (.string text) text >>= _) >>= _ = _
    rw [read]
    rfl

/-- Accepted decimals fit their type, and numbers that do not fit are reported, for just
the texts whose digits and power are not too large together. -/
theorem accepted_fit_iff_not_overreaches (text : String) :
    (((∃ digits, parse text = .ok digits) → IsWord text ∨ Fits text) ∧
      (IsNumeral text → ¬Fits text → Refused text)) ↔ ¬Overreaches text := by
  constructor
  · rintro ⟨fit, _⟩ beyond
    rcases not_fits_of_overreaches beyond with ⟨accepted, noWord, outside⟩
    exact (fit (exists_parse_iff.mpr accepted)).elim noWord outside
  · intro within
    refine ⟨fun accepted => fits_of_accepted (exists_parse_iff.mp accepted) within, ?_⟩
    rintro ⟨written, rfl⟩ outside
    rcases written.fault?_text with ⟨accepted, _⟩ | ⟨refused, _⟩
    · exact absurd (fits_of_accepted accepted within) (not_or.mpr ⟨written.not_isWord, outside⟩)
    · exact refused_of_fault? refused

/-- The power `10 ^ 6145` has one digit and an exponent of 32 bits, and is above all
decimals of 128 bits. -/
theorem not_accepted_fit :
    ¬∀ text : String, (∃ digits, parse text = .ok digits) → IsWord text ∨ Fits text := by
  intro fit
  have beyond : Overreaches "1e6145" := by
    refine ⟨⟨none, ⟨['1'], none, some ⟨'e', none, "6145".toList⟩⟩, ⟨?_, nofun, ?_⟩, ?_⟩,
      rfl, ?_, ?_⟩
    · exact List.all_eq_true.mp rfl
    · rintro exponent ⟨⟩
      exact ⟨.inl rfl, by decide, List.all_eq_true.mp rfl⟩
    · decide
    · decide
    · unfold WrittenDecimal.InRange
      decide
  rcases not_fits_of_overreaches beyond with ⟨accepted, noWord, outside⟩
  exact (fit _ (exists_parse_iff.mpr accepted)).elim noWord outside

end DecimalText

end DocShell
