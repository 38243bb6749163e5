import DocShell.Proofs.Scalar.Pattern

namespace DocShell

/-! # Regular expressions out of text

A pattern that is cut out of a text stands between slashes there, so it is closed and
not empty, and it is written as it was found, unless it holds a carriage return. -/

structure Pattern.Literal (source : String) : Prop where
  closed : isClosed source = true
  nonempty : source.toList ≠ []
  verbatim : '\r' ∉ source.toList → Value.writtenSource source = source.toList

def Lexeme.Sound : Lexeme → Prop
  | .regex source _ => Pattern.Literal source
  | _ => True

namespace Token

open Pattern

theorem slashFrom?_ne_zero {escaped inClass : Bool} {text : List Char}
    (noSlash : text.head? ≠ some '/') : slashFrom? escaped inClass text ≠ some 0 := by
  cases text with
  | nil => exact fun found => by cases found
  | cons first rest =>
      have other : ¬(first = '/' ∧ (!escaped) = true ∧ (!inClass) = true) := by
        rintro ⟨rfl, _⟩
        exact noSlash rfl
      rw [slashFrom?, if_neg other]
      split
      · exact fun found => by cases found
      · intro found
        rcases Option.map_eq_some_iff.mp found with ⟨count, _, zero⟩
        exact absurd zero (Nat.succ_ne_zero count)

theorem literal_of_closingSlash? {text : List Char} {count : Nat}
    (noSlash : text.head? ≠ some '/') (found : closingSlash? false text = some count) :
    Pattern.Literal (String.ofList (text.take count)) := by
  rw [closingSlash?_eq] at found
  rcases closed_of_slashFrom? found with ⟨closed, kept⟩
  have nonempty : text.take count ≠ [] := by
    intro empty
    rcases List.take_eq_nil_iff.mp empty with rfl | rfl
    · exact slashFrom?_ne_zero noSlash found
    · cases found
  refine ⟨?_, ?_, ?_⟩
  · rw [isClosed, String.toList_ofList]
    exact decide_eq_true closed
  · rwa [String.toList_ofList]
  · rw [Value.writtenSource, String.toList_ofList, if_neg nonempty]
    exact kept

theorem sound_of_slash {rest : List Char} {lexeme : Lexeme} {count : Nat}
    (found : slash rest = .ok (.lexeme lexeme, count)) : lexeme.Sound := by
  unfold slash at found
  split at found
  · cases found
  · split at found <;> cases found
  · rename_i noSlash noStar
    split at found
    · rename_i closing
      cases found
      refine literal_of_closingSlash? (fun first => ?_) closing
      rcases List.head?_eq_some_iff.mp first with ⟨more, rfl⟩
      exact noSlash more rfl
    · cases found

theorem sound_of_step {first : Char} {rest : List Char} {lexeme : Lexeme} {count : Nat}
    (found : step first rest = .ok (.lexeme lexeme, count)) : lexeme.Sound := by
  unfold step at found
  split at found
  · cases found
  split at found
  · split at found
    · cases found
      trivial
    · cases found
  split at found
  · unfold quotation at found
    split at found
    · split at found
      · cases found
        trivial
      · cases found
    · cases found
  split at found
  · exact sound_of_slash found
  split at found
  · cases found
    trivial
  · split at found
    · cases found
      trivial
    · cases found

theorem sound_of_scanFrom {position finish : Position} {text : List Char} {tokens : List Token}
    (found : scanFrom position text = .ok (tokens, finish)) :
    ∀ token ∈ tokens, token.lexeme.Sound := by
  fun_induction scanFrom position text generalizing tokens finish with
  | case1 position =>
      cases found
      intro token member
      cases member
  | case2 => cases found
  | case3 => cases found
  | case4 position first rest count more stop scanned cut induction =>
      cases found
      exact induction scanned
  | case5 position first rest count more stop scanned lexeme cut induction =>
      cases found
      intro token member
      rcases List.mem_cons.mp member with rfl | inner
      · exact sound_of_step cut
      · exact induction scanned token inner

theorem sound_of_scan {text : String} {tokens : List Token} {finish : Position}
    (found : scan text = .ok (tokens, finish)) : ∀ token ∈ tokens, token.lexeme.Sound :=
  sound_of_scanFrom found

end Token

end DocShell
