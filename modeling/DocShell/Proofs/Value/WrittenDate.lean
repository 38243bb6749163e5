import DocShell.Proofs.Number.Nearest
import DocShell.Proofs.Value.NumberLong

namespace DocShell

/-! # Written dates

A date whose year has four digits is written as a stamp, any other one as the number of
its milliseconds. Either way it is read back, unless it is too far from the epoch. -/

namespace Double

/-- Rounding leads no number back into a range of exact ones. -/
theorem truncatedWithin?_ofInt_eq_none {number : Int} {limit : Nat} (exact : limit < exactLimit)
    (beyond : limit < number.natAbs) : (ofInt number).truncatedWithin? limit = none := by
  rcases Magnitude.exists_units_eq (show limit + 1 ≤ 2 ^ 53 from exact) with ⟨next, units⟩
  rw [ofInt, ofRatio]
  cases found : Magnitude.nearest? (number.natAbs * Magnitude.unitsPerOne) 1 with
  | none => rfl
  | some rounded =>
      have above : next.units ≤ rounded.units := by
        refine Magnitude.units_le_of_nearest? Nat.one_pos ?_ found
        rw [Nat.mul_one, units]
        exact Nat.mul_le_mul_right _ beyond
      have step := Nat.mul_lt_mul_of_pos_right (Nat.lt_succ_self limit) Magnitude.unitsPerOne_pos
      rw [units] at above
      exact if_neg (Nat.not_le.mpr (Nat.lt_of_lt_of_le step above))

end Double

/-! ## Whole numbers as arguments -/

namespace Sign

def ofInt (number : Int) : List Sign := if number < 0 then [.minus] else []

theorem ofInt_text (number : Int) :
    (ofInt number).map character ++ (WrittenNumber.ofNat number.natAbs).text =
      Text.ofInt number := by
  rw [WrittenNumber.text_ofNat, ofInt, Text.ofInt]
  split <;> rfl

theorem appliedToDouble_nil (number : Double) : appliedToDouble [] number = number := rfl

theorem appliedToDouble_minus (number : Double) :
    appliedToDouble [.minus] number = number.neg := rfl

theorem ofInt_double (number : Int) :
    appliedToDouble (ofInt number) (WrittenNumber.ofNat number.natAbs).double =
      Double.ofInt number := by
  rw [WrittenNumber.double_ofNat, ofInt]
  split
  · rename_i negative
    rw [appliedToDouble_minus, Double.neg_ofInt negative]
  · rename_i nonnegative
    rw [appliedToDouble_nil, Int.natAbs_of_nonneg (Int.not_lt.mp nonnegative)]

end Sign

namespace Value

/-- A number of milliseconds beyond the limit is refused. -/
theorem ofShell_farDate {instant : Int} {limit : Nat}
    (room : callNeed (signNeed (instant < 0)) ≤ limit)
    (far : Calendar.instantLimit < instant.natAbs) :
    ∃ position, ofShell limit (String.ofList (writtenCall "Date" (Text.ofInt instant))) =
      .error (.misuse (.badInstant "Date") position) := by
  have need : numberCallNeed (Sign.ofInt instant) = callNeed (signNeed (instant < 0)) := by
    rw [numberCallNeed, Sign.ofInt, callNeed, signNeed]
    by_cases negative : instant < 0
    · rw [if_pos negative, if_pos (decide_eq_true negative)]
      rfl
    · rw [if_neg negative, if_neg (by simpa using negative)]
      rfl
  have exact : Calendar.instantLimit < Double.exactLimit := by decide
  have outside : Constructor.instant? (number (Double.ofInt instant)) = none :=
    Double.truncatedWithin?_ofInt_eq_none exact far
  have call := ofShell_numberCall .date (Sign.ofInt instant) (.ofNat instant.natAbs) limit
  rw [numberCall, Sign.ofInt_text, Sign.ofInt_double, need] at call
  rcases call with ⟨_, position, place, equal⟩ | ⟨short, _⟩
  · refine ⟨place, ?_⟩
    rwa [Constructor.build_date_none _ _ _ rfl outside] at equal
  · exact absurd room short

/-- A date is read back as itself up to the limit and refused beyond it. It is written as a
stamp of its instant if its year in universal time has four digits, and else as a number. -/
theorem ofShell_shellText_date (instant : Int) (indent : Nat) {limit : Nat}
    (room : (date instant).need ≤ limit) :
    (instant.natAbs ≤ Calendar.instantLimit →
        ofShell limit ((date instant).shellText indent) = .ok (.date instant)) ∧
      (Calendar.instantLimit < instant.natAbs →
        ∃ position, ofShell limit ((date instant).shellText indent) =
          .error (.misuse (.badInstant "Date") position)) ∧
      (∃ year, Calendar.InYear instant year) ∧
      ∀ year, Calendar.InYear instant year →
        if 0 ≤ year ∧ year ≤ 9999 then
          ∃ stamp : Calendar.Stamp, stamp.Full ∧ stamp.date.year = year ∧ stamp.instant = instant ∧
            (date instant).shellText indent =
              String.ofList (writtenCall "ISODate" (inQuotes stamp.text))
        else
          (date instant).shellText indent =
            String.ofList (writtenCall "Date" (Text.ofInt instant)) := by
  have text : (date instant).shellText indent = String.ofList (writtenDate instant) := rfl
  refine ⟨fun near => ?_, fun far => ?_, ?_, fun year inside => ?_⟩
  · have sound : (date instant).Sound := near
    have closed : (date instant).Closed := trivial
    exact ofShell_shellText_of_le sound closed indent room
  · have other : Calendar.write? instant = none := by
      cases written : Calendar.write? instant with
      | none => rfl
      | some text =>
          have near := Calendar.natAbs_le_of_read? (Calendar.read?_of_write? written)
          exact absurd near (Nat.not_le.mpr far)
    rw [need, dateNeed, other] at room
    rw [text, writtenDate, other]
    exact ofShell_farDate room far
  · exact ⟨_, Calendar.inYear_iff.mpr rfl⟩
  · rcases Calendar.write?_of_inYear inside with ⟨digits, number⟩
    rw [text, writtenDate]
    split
    · rename_i four
      rcases digits four with ⟨stamp, full, same, equal, written⟩
      exact ⟨stamp, full, same, equal, by rw [written]⟩
    · rename_i other
      rw [number other]

/-- The last millisecond before the year zero. -/
theorem ofShell_shellText_beforeYears :
    ofShell defaultLimit ((date (-62167219200001)).shellText 2) = .ok (.date (-62167219200001)) :=
  (ofShell_shellText_date (-62167219200001) 2 (by decide +kernel)).1 (by decide)

end Value

end DocShell
