import DocShell.Calendar.Date
import DocShell.Proofs.Text.Digits
import DocShell.Proofs.Text.Runs
import DocShell.Scalar.DecimalText
import DocShell.Text.Hex
import DocShell.Text.Quoted

namespace DocShell.Text

/-! # Texts that need no escapes

The digits of typed values stand between quotes as they are. -/

def Unescaped (text : List Char) : Prop := ∀ character ∈ text, escaped character = [character]

theorem Unescaped.flatMap {text : List Char} (unescaped : Unescaped text) :
    text.flatMap escaped = text := by
  induction text with
  | nil => rfl
  | cons character rest induction =>
      rw [List.flatMap_cons, unescaped character List.mem_cons_self,
        induction fun other member => unescaped other (List.mem_cons_of_mem _ member)]
      rfl

theorem unescaped_cons {first : Char} {rest : List Char} (plain : escaped first = [first])
    (unescaped : Unescaped rest) : Unescaped (first :: rest) := by
  intro character member
  rcases List.mem_cons.mp member with rfl | inner
  · exact plain
  · exact unescaped character inner

theorem unescaped_append {front back : List Char} (first : Unescaped front)
    (second : Unescaped back) : Unescaped (front ++ back) := by
  intro character member
  exact (List.mem_append.mp member).elim (first character) (second character)

theorem escaped_of_isDigit {digit : Char} (isDigit : digit.isDigit = true) :
    escaped digit = [digit] :=
  forall_ascii (fun character => character.isDigit = true → escaped character = [character])
    (by decide +kernel) (toNat_lt_of_isDigit isDigit) isDigit

theorem unescaped_padded (width number : Nat) : Unescaped (padded width number) :=
  fun _ member => escaped_of_isDigit (isDigit_of_mem_padded member)

theorem escaped_hexDigit : ∀ value ∈ List.range 16, escaped (hexDigit value) = [hexDigit value] := by
  decide

theorem unescaped_hexOfBytes (bytes : List UInt8) : Unescaped (hexOfBytes bytes) := by
  induction bytes with
  | nil =>
      intro character member
      cases member
  | cons byte rest induction =>
      have bound := byte.toNat_lt
      have high := escaped_hexDigit (byte.toNat / 16) (List.mem_range.mpr (by omega))
      have low := escaped_hexDigit (byte.toNat % 16) (List.mem_range.mpr (by omega))
      exact unescaped_cons high (unescaped_cons low induction)

theorem unescaped_of_nat? {text : List Char} {number : Nat} (read : nat? text = some number) :
    Unescaped text := by
  unfold nat? at read
  split at read
  · rename_i digits
    exact fun digit member => escaped_of_isDigit (List.all_eq_true.mp digits.2 digit member)
  · cases read

theorem unescaped_of_int? {text : List Char} {number : Int} (read : int? text = some number) :
    Unescaped text := by
  unfold int? at read
  split at read
  · rcases Option.map_eq_some_iff.mp read with ⟨size, digits, _⟩
    exact unescaped_cons (by decide) (unescaped_of_nat? digits)
  · rcases Option.map_eq_some_iff.mp read with ⟨size, digits, _⟩
    exact unescaped_cons (by decide) (unescaped_of_nat? digits)
  · rcases Option.map_eq_some_iff.mp read with ⟨size, digits, _⟩
    exact unescaped_of_nat? digits

theorem unescaped_of_write? {instant : Int} {text : List Char}
    (written : Calendar.write? instant = some text) : Unescaped text := by
  simp only [Calendar.write?] at written
  split at written
  · cases written
    have mark {mark : Char} (plain : escaped mark = [mark]) (width number : Nat) :
        Unescaped (mark :: padded width number) := unescaped_cons plain (unescaped_padded _ _)
    have zone : Unescaped ['Z'] := unescaped_cons (by decide) fun _ member => nomatch member
    refine unescaped_append ?_ zone
    repeat refine unescaped_append ?_ (mark (by decide) _ _)
    exact unescaped_padded 4 _
  · cases written

/-! ## Decimals -/

/-- A cut leaves out only a character that satisfies its test. -/
theorem mem_cut (test : Char → Bool) {text : List Char} {character : Char}
    (member : character ∈ text) :
    character ∈ (DecimalText.cut test text).1 ∨ test character = true ∨
      ∃ back, (DecimalText.cut test text).2 = some back ∧ character ∈ back := by
  have parts : text.takeWhile (!test ·) ++ text.dropWhile (!test ·) = text :=
    List.takeWhile_append_dropWhile
  rw [← parts] at member
  rcases List.mem_append.mp member with front | back
  · exact .inl front
  · cases behind : text.dropWhile (!test ·) with
    | nil =>
        rw [behind] at back
        cases back
    | cons first rest =>
        have head := List.head?_dropWhile_not (!test ·) text
        rw [behind] at back head
        rcases List.mem_cons.mp back with rfl | inner
        · exact .inr (.inl (by simpa using head))
        · refine .inr (.inr ⟨rest, ?_, inner⟩)
          rw [DocShell.DecimalText.cut, behind]
          rfl

theorem unescaped_of_unsignedFault? {text : List Char}
    (sound : DecimalText.unsignedFault? text = none) : Unescaped text := by
  intro character member
  simp only [DecimalText.unsignedFault?] at sound
  split at sound
  · cases sound
  rename_i digits
  rw [not_or, Bool.not_eq_false] at digits
  have plain := List.all_eq_true.mp digits.2
  rcases mem_cut (fun mark => mark = 'e' || mark = 'E') member with front | mark | ⟨back, equal, inner⟩
  · rcases mem_cut (fun mark => mark = '.') front with whole | point | ⟨fraction, equal, inner⟩
    · exact escaped_of_isDigit (plain character (List.mem_append_left _ whole))
    · rw [of_decide_eq_true point]
      decide
    · refine escaped_of_isDigit (plain character (List.mem_append_right _ ?_))
      rw [equal]
      exact inner
  · rw [Bool.or_eq_true, decide_eq_true_eq, decide_eq_true_eq] at mark
    rcases mark with rfl | rfl <;> decide
  · rw [equal] at sound
    cases read : int? back with
    | none =>
        simp only [Option.map_some, read] at sound
        cases sound
    | some power => exact unescaped_of_int? read character inner

/-- A decimal is spelled without characters that need an escape. -/
theorem unescaped_of_fault? {text : String} (sound : DecimalText.fault? text = none) :
    Unescaped text.toList := by
  have unsigned : Unescaped (DecimalText.unsigned text.toList) := by
    simp only [DecimalText.fault?] at sound
    split at sound
    · rename_i word
      have words : ∀ word ∈ DecimalText.words,
          word.toList.all (fun letter => escaped letter = [letter]) = true := by
        decide +kernel
      have letters := forall_of_all (words _ word)
      rwa [String.toList_ofList] at letters
    · exact unescaped_of_unsignedFault? sound
  unfold DecimalText.unsigned at unsigned
  split at unsigned
  · rename_i equal
    rw [equal]
    exact unescaped_cons (by decide) unsigned
  · rename_i equal
    rw [equal]
    exact unescaped_cons (by decide) unsigned
  · exact unsigned

end DocShell.Text
