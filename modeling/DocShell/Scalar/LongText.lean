import DocShell.Scalar.LongDigits

namespace DocShell

/-! # Integers of 64 bits that keep their spelling

Leading zeros and a plus sign are part of the text and stay. The integer is read off the
text whenever it is needed. -/

inductive NumberFault
  /-- The text does not have the form of a number. -/
  | malformed
  /-- The form is right, but the number does not fit its type exactly. -/
  | outOfRange
deriving DecidableEq, Repr

def LongText.fault? (text : String) : Option NumberFault :=
  if isFormed text.toList = false then some .malformed
  else if (read? text.toList).isNone then some .outOfRange
  else none

structure LongText where
  text : String
  sound : LongText.fault? text = none
deriving DecidableEq

namespace LongText

def parse (text : String) : Except NumberFault LongText :=
  match sound : fault? text with
  | none => .ok ⟨text, sound⟩
  | some fault => .error fault

theorem parse_eq_ok_iff {text : String} {long : LongText} :
    parse text = .ok long ↔ long.text = text := by
  constructor
  · intro parsed
    unfold parse at parsed
    split at parsed
    · cases parsed
      rfl
    · cases parsed
  · rintro rfl
    unfold parse
    split
    · rfl
    · rename_i fault found
      exact absurd (found.symm.trans long.sound) (by simp)

theorem parse_eq_error_iff {text : String} {fault : NumberFault} :
    parse text = .error fault ↔ fault? text = some fault := by
  unfold parse
  split
  · rename_i sound
    exact iff_of_false (by simp) (by simp [sound])
  · rename_i other found
    simp [found]

theorem parse_text (long : LongText) : parse long.text = .ok long := parse_eq_ok_iff.mpr rfl

/-- The integer that the text spells; zero, did it spell none. -/
def value (long : LongText) : Int := (read? long.text.toList).getD 0

/-- A text is sound if it has the form of an integer that fits. -/
theorem fault?_eq_none_iff {text : String} :
    fault? text = none ↔ ∃ value, Text.int? text.toList = some value ∧ FitsLong value := by
  rw [fault?, isFormed_eq, read?_eq]
  cases Text.int? text.toList with
  | none => simp
  | some value => by_cases fits : FitsLong value <;> simp [Option.filter_some, fits]

/-- What is kept can always be read. -/
theorem read?_text (long : LongText) : read? long.text.toList = some long.value := by
  rcases fault?_eq_none_iff.mp long.sound with ⟨value, reads, fits⟩
  rw [LongText.value, read?_eq, reads, Option.filter_some, if_pos (decide_eq_true fits),
    Option.getD_some]

theorem reads (long : LongText) : Text.int? long.text.toList = some long.value := by
  have found := long.read?_text
  rw [read?_eq] at found
  exact (Option.filter_eq_some_iff.mp found).1

theorem fits (long : LongText) : FitsLong long.value := by
  have found := long.read?_text
  rw [read?_eq] at found
  exact of_decide_eq_true (Option.filter_eq_some_iff.mp found).2

def ofInt (value : Int) (fits : FitsLong value) : LongText where
  text := String.ofList (Text.ofInt value)
  sound := fault?_eq_none_iff.mpr ⟨value, by rw [String.toList_ofList, Text.int?_ofInt], fits⟩

@[simp] theorem value_ofInt (value : Int) (fits : FitsLong value) :
    (ofInt value fits).value = value := by
  have reads := (ofInt value fits).reads
  rw [ofInt, String.toList_ofList, Text.int?_ofInt] at reads
  exact (Option.some.inj reads).symm

def normal (long : LongText) : LongText := ofInt long.value long.fits

theorem ext_text {left right : LongText} (equal : left.text = right.text) : left = right := by
  cases left
  cases right
  cases equal
  rfl

end LongText

end DocShell
