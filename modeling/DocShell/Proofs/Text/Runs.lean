import DocShell.Text.Word
import DocShell.Text.Blank

namespace DocShell.Text

/-! # Runs of characters

Where a run of characters ends is decided by the first character behind it. -/

def Leaves (test : Char → Bool) (rest : List Char) : Prop :=
  ∀ character ∈ rest.head?, test character = false

theorem leaves_nil (test : Char → Bool) : Leaves test [] := by
  intro character member
  cases member

theorem leaves_cons {test : Char → Bool} {first : Char} (outside : test first = false)
    (rest : List Char) : Leaves test (first :: rest) := by
  intro character member
  cases member
  exact outside

theorem Leaves.of_imp {smaller larger : Char → Bool} {rest : List Char}
    (leaves : Leaves larger rest)
    (inside : ∀ character, smaller character = true → larger character = true) :
    Leaves smaller rest := by
  intro character member
  cases found : smaller character with
  | false => rfl
  | true => exact (inside character found).symm.trans (leaves character member)

theorem takeWhile_of_leaves {test : Char → Bool} {rest : List Char} (leaves : Leaves test rest) :
    rest.takeWhile test = [] := by
  cases rest with
  | nil => rfl
  | cons first rest => simp [leaves first rfl]

theorem dropWhile_of_leaves {test : Char → Bool} {rest : List Char} (leaves : Leaves test rest) :
    rest.dropWhile test = rest := by
  cases rest with
  | nil => rfl
  | cons first rest => simp [leaves first rfl]

theorem takeWhile_run {test : Char → Bool} {run rest : List Char}
    (inside : ∀ character ∈ run, test character = true) (leaves : Leaves test rest) :
    (run ++ rest).takeWhile test = run := by
  rw [List.takeWhile_append_of_pos inside, takeWhile_of_leaves leaves, List.append_nil]

theorem dropWhile_run {test : Char → Bool} {run rest : List Char}
    (inside : ∀ character ∈ run, test character = true) (leaves : Leaves test rest) :
    (run ++ rest).dropWhile test = rest := by
  rw [List.dropWhile_append_of_pos inside, dropWhile_of_leaves leaves]

/-! ## Characters of ASCII

A statement about the first 128 characters is settled by looking at each. -/

theorem forall_ascii (holds : Char → Prop)
    (each : ∀ code ∈ List.range 128, holds (Char.ofNat code)) {character : Char}
    (small : character.toNat < 128) : holds character := by
  have found := each character.toNat (List.mem_range.mpr small)
  rwa [Char.ofNat_toNat] at found

theorem forall_of_all {holds : Char → Prop} [DecidablePred holds] {text : List Char}
    (all : text.all (fun character => holds character) = true) :
    ∀ character ∈ text, holds character :=
  fun character member => of_decide_eq_true (List.all_eq_true.mp all character member)

theorem toNat_lt_of_isDigit {character : Char} (digit : character.isDigit = true) :
    character.toNat < 128 := by
  simp only [Char.isDigit, Bool.and_eq_true, decide_eq_true_eq] at digit
  have upper : character.toNat ≤ 57 := digit.2
  omega

theorem toNat_lt_of_isAlpha {character : Char} (letter : character.isAlpha = true) :
    character.toNat < 128 := by
  rcases (Bool.or_eq_true _ _).mp letter with upper | lower
  · have bound : character.toNat ≤ 90 := (of_decide_eq_true upper).2
    omega
  · have bound : character.toNat ≤ 122 := of_decide_eq_true ((Bool.and_eq_true _ _).mp lower).2
    omega

theorem isWordPart_of_isDigit {character : Char} (digit : character.isDigit = true) :
    isWordPart character = true := by
  exact forall_ascii (fun character => character.isDigit = true → isWordPart character = true)
    (by decide +kernel) (toNat_lt_of_isDigit digit) digit

theorem isWordStart_of_isAlpha {character : Char} (letter : character.isAlpha = true) :
    isWordStart character = true := by
  exact forall_ascii (fun character => character.isAlpha = true → isWordStart character = true)
    (by decide +kernel) (toNat_lt_of_isAlpha letter) letter

end DocShell.Text
