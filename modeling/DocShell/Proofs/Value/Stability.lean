import Mathlib
import DocShell.Proofs.Evaluation.Yields
import DocShell.Proofs.Value.RoundTrip

namespace DocShell.Value

/-! # Writing what was read

A value that was read from any text takes at most two levels more as it is written than
the text was allowed. With so much room it is read again, and it comes back equal in all
that counts, unless a pattern holds a carriage return, which is written as an escape. -/

/-- What a text denotes: plain data that takes at most two levels more, or nothing. -/
theorem decoded_of_ofShell {limit : Nat} {text : String} {value : Value}
    (found : ofShell limit text = .ok value) :
    value = .absent ∨ value.Decoded ∧ value.need ≤ limit + 2 := by
  rcases bind_eq_ok.mp found with ⟨parsed, read, evaluated⟩
  rw [Expr.parse] at read
  split at read
  · rename_i tokens finish scanned
    cases parsed with
    | none =>
        cases evaluated
        exact .inl rfl
    | some expr =>
        have whole := Reader.whole_of_ofTokens Expr.invariant_yields read
          (Token.sound_of_scan scanned)
        rcases bind_pure_eq_ok.mp evaluated with ⟨meaning, denoted, rfl⟩
        rcases whole.2 meaning denoted with ⟨everywhere, need⟩
        cases absent : meaning.value.plain.isAbsent with
        | false => exact .inr ⟨decoded_plain everywhere absent, need⟩
        | true => exact .inl (eq_absent absent)
  · cases read

/-- Writing and reading once more, with any number of levels. -/
theorem ofShell_again {limit : Nat} {text : String} {value : Value}
    (found : ofShell limit text = .ok value) (indent : Nat) :
    value.need ≤ limit + 2 ∧
      (∀ room, value.need ≤ room → ofShell room (value.shellText indent) = .ok value.normal) ∧
      (∀ room, room < value.need → ∃ position, ofShell room (value.shellText indent) =
        .error (.unreadable (.tooDeep room) position)) ∧
      (value.NoReturn → value.normal.semanticEq value = true) := by
  have parts : value.Sound ∧ value.Closed ∧ value.need ≤ limit + 2 ∧
      (value.NoReturn → value.normal.semanticEq value = true) := by
    rcases decoded_of_ofShell found with rfl | ⟨decoded, need⟩
    · exact ⟨trivial, trivial, Nat.zero_le _, fun _ => rfl⟩
    · exact ⟨decoded.sound, decoded.closed, need, semanticEq_normal decoded⟩
  rcases parts with ⟨sound, closed, need, equal⟩
  refine ⟨need, fun room enough => ?_, fun room short => ?_, equal⟩
  · exact ofShell_shellText_of_le sound closed indent enough
  · exact ofShell_shellText_of_lt sound closed indent short

theorem ofShell_hole : ofShell 2 "[,]" = .ok (array [.null]) := by cbv

theorem ofShell_again_hole :
    ofShell 2 "[,]" = .ok (array [.null]) ∧
      ofShell 3 ((array [.null]).shellText 0) = .ok (array [.null]) ∧
      (array [.null]).semanticEq (array [.null]) = true := by
  rcases ofShell_again ofShell_hole 0 with ⟨_, reads, _, equal⟩
  exact ⟨ofShell_hole, reads 3 (by decide), equal ⟨trivial, trivial, trivial⟩⟩

/-- An array with a hole is refused as it is written, and a carriage return in a pattern
does not come back. -/
theorem not_ofShell_again :
    ofShell 2 "[,]" = .ok (array [.null]) ∧
      (∀ read, ofShell 2 ((array [.null]).shellText 0) ≠ .ok read) ∧
      ofShell 1 "/\r/" = .ok (regex ⟨"\r", ""⟩) ∧
      ofShell 1 ((regex ⟨"\r", ""⟩).shellText 0) = .ok (regex ⟨"\\r", ""⟩) ∧
      (regex ⟨"\\r", ""⟩).semanticEq (regex ⟨"\r", ""⟩) = false := by
  have sound : (array [.null]).Sound := ⟨trivial, trivial, trivial⟩
  refine ⟨ofShell_hole, fun read found => ?_, by cbv, by cbv, rfl⟩
  rcases ofShell_shellText_of_lt sound ⟨trivial, trivial, trivial⟩ 0 (by decide : 2 < 3) with
    ⟨position, refused⟩
  rw [refused] at found
  cases found

end DocShell.Value
