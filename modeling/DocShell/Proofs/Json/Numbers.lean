import DocShell.Proofs.Bridge.Untyped
import DocShell.Proofs.Number.ReadBack
import DocShell.Proofs.Token.Spells

namespace DocShell

/-! # JSON numbers as numerals

Behind its sign, a number of JSON is a numeral without a superfluous zero, and denotes
what the numeral does. Integers keep their own form in JSON but not their own value. -/

namespace Numeral

theorem take?_of_takeDigits {text : List Char} (nonempty : (takeDigits text).1 ≠ []) :
    take? text = some (takeTail (takeDigits text).1 (takeDigits text).2) := by
  have digits : (takeTail (takeDigits text).1 (takeDigits text).2).1.digits ≠ [] := by
    intro empty
    rw [Numeral.digits, whole_takeTail] at empty
    exact nonempty (List.append_eq_nil_iff.mp empty).1
  rw [take?]
  exact if_neg digits

/-- A numeral that ends with the digits before its point consists of them. -/
theorem takeTail_of_rest_eq {whole text : List Char} (stays : (takeTail whole text).2 = text) :
    (takeTail whole text).1 = ⟨whole, [], 0⟩ := by
  have fraction : takeFraction text = ([], text) := by
    have short := (suffix_takeTail whole text).length_le
    rw [stays] at short
    unfold takeFraction at short ⊢
    split at short
    · rename_i behind
      have less := (suffix_takeDigits behind).length_le
      rw [List.length_cons] at short
      omega
    · rfl
  cases taken : takeExponent text with
  | none => simp only [takeTail, fraction, taken]
  | some found =>
      rcases exists_cons_of_takeExponent taken with ⟨mark, behind, rfl, suffix⟩
      have less := suffix.length_le
      simp only [takeTail, fraction, taken] at stays
      rw [stays, List.length_cons] at less
      omega

end Numeral

namespace Json

structure Denotes (json : Json) (number : Double) : Prop where
  value : json.untyped = .number number
  finite : number.isFinite = true

theorem denotes_of_finite? {number : Double} {json : Json} (made : finite? number = some json) :
    json.Denotes number := by
  rw [finite?] at made
  split at made
  · rename_i finite
    cases made
    exact ⟨rfl, finite⟩
  · cases made

theorem denotes_of_ofDigits? {negative : Bool} {digits : List Char} {json : Json}
    (made : ofDigits? negative digits = some json) :
    json.Denotes (Double.ofDecimal negative (Text.natOfDigits digits) 0) := by
  simp only [ofDigits?] at made
  generalize Text.natOfDigits digits = size at made
  split at made
  · rename_i signed
    rcases signed with ⟨rfl, nonzero, small⟩
    cases made
    have below : -(size : Int) < 0 := by omega
    have value : Double.ofDecimal true size 0 = Double.ofInt (-size) := by
      rw [← Bool.not_false, ← Double.neg_ofDecimal, Double.ofDecimal_zero, ← Double.neg_ofInt below,
        Int.natAbs_neg, Int.natAbs_natCast]
    rw [value]
    exact ⟨rfl, Double.isFinite_ofInt (by omega)⟩
  · split at made
    · rename_i unsigned
      cases made
      rw [Bool.eq_false_iff.mpr unsigned.1, Double.ofDecimal_zero]
      exact ⟨rfl, Double.isFinite_ofInt (by omega)⟩
    · exact denotes_of_finite? made

/-- What is read behind a sign is a numeral, in which no zero stands in front of others. -/
theorem exists_numeral_of_unsigned? {negative : Bool} {text : List Char}
    {taken : Taken Json Char text.length} (read : unsigned? negative text = some taken) :
    ∃ numeral, Numeral.take? text = some (numeral, taken.rest) ∧ numeral.whole ≠ [] ∧
      (numeral.whole.head? = some '0' → numeral.whole = ['0']) ∧
      taken.item.Denotes (numeral.toDouble negative) := by
  simp only [unsigned?] at read
  split at read
  · rename_i nonempty
    split at read
    · cases read
    rename_i leading
    split at read
    · cases read
    split at read
    · cases read
    rcases Option.map_eq_some_iff.mp read with ⟨json, made, rfl⟩
    refine ⟨(Numeral.takeTail (Numeral.takeDigits text).1 (Numeral.takeDigits text).2).1,
      Numeral.take?_of_takeDigits nonempty, ?_, ?_, ?_⟩
    · rw [Numeral.whole_takeTail]
      exact nonempty
    · rw [Numeral.whole_takeTail]
      exact fun zero => Classical.byContradiction fun other => leading ⟨zero, other⟩
    · split at made
      · rename_i stays
        have integer := denotes_of_ofDigits? made
        rw [Numeral.takeTail_of_rest_eq stays]
        simpa [Numeral.toDouble, Numeral.digits] using integer
      · exact denotes_of_finite? made
  · cases read

end Json

end DocShell
