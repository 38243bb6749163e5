import DocShell.Proofs.Token.Spells
import DocShell.Text.Enclosed

namespace DocShell.Token

/-! # Spelled parts

Lists of parts between brackets. Whatever sets the parts apart besides a comma is
layout, so every way of setting them spells the same lexemes. -/

def separated : List (List Lexeme) → List Lexeme
  | [] => []
  | [part] => part
  | part :: rest => part ++ .mark .comma :: separated rest

theorem apart_cons {first : Char} (outside : Text.isOptionPart first = false) (noDot : first ≠ '.')
    (rest : List Char) : Apart (first :: rest) := by
  refine Text.leaves_cons ?_ rest
  rw [outside, decide_eq_false noDot]
  rfl

theorem Spells.cons {first : List Char} {lexeme : Lexeme} {back rest : List Char}
    {lexemes : List Lexeme} (front : Spells first [lexeme] (back ++ rest))
    (behind : Spells back lexemes rest) : Spells (first ++ back) (lexeme :: lexemes) rest :=
  front.append behind

inductive SpellEach : List (List Char) → List (List Lexeme) → Prop
  | nil : SpellEach [] []
  | cons {text : List Char} {lexemes : List Lexeme} {texts : List (List Char)}
      {more : List (List Lexeme)} (first : ∀ rest, Apart rest → Spells text lexemes rest)
      (later : SpellEach texts more) : SpellEach (text :: texts) (lexemes :: more)

theorem SpellEach.singleton {text : List Char} {lexemes : List Lexeme}
    (first : ∀ rest, Apart rest → Spells text lexemes rest) : SpellEach [text] [lexemes] :=
  .cons first .nil

/-- Text that only sets lexemes apart: spaces and line feeds. -/
def Layout (blanks : List Char) : Prop := ∀ blank ∈ blanks, blank = ' ' ∨ blank = '\n'

theorem layout_spaces (count : Nat) : Layout (Text.Spacing.spaces count) := by
  intro blank member
  exact .inl (List.eq_of_mem_replicate member)

theorem layout_cons {first : Char} {blanks : List Char} (blank : first = ' ' ∨ first = '\n')
    (layout : Layout blanks) : Layout (first :: blanks) := by
  intro other member
  rcases List.mem_cons.mp member with rfl | inner
  · exact blank
  · exact layout other inner

theorem spells_layout {blanks : List Char} (layout : Layout blanks) (rest : List Char) :
    Spells blanks [] rest := by
  refine spells_blanks (fun blank member => ?_) rest
  rcases layout blank member with rfl | rfl <;> decide

theorem apart_layout {blanks rest : List Char} (layout : Layout blanks) (apart : Apart rest) :
    Apart (blanks ++ rest) := by
  cases blanks with
  | nil => exact apart
  | cons blank blanks =>
      rcases layout blank List.mem_cons_self with rfl | rfl <;>
        exact apart_cons (by decide) (by decide) _

structure BlankSpacing (spacing : Text.Spacing) : Prop where
  before : Layout spacing.before
  between : ∃ blanks, spacing.between = ',' :: blanks ∧ Layout blanks
  behind : Layout spacing.behind

theorem spells_joined {blanks : List Char} (layout : Layout blanks) {texts : List (List Char)}
    {parts : List (List Lexeme)} (each : SpellEach texts parts) {rest : List Char}
    (apart : Apart rest) : Spells (Text.joined (',' :: blanks) texts) (separated parts) rest := by
  have noDot : Mark.comma ≠ .dot := by decide
  induction each with
  | nil => exact spells_nil rest
  | @cons text lexemes texts more first later induction =>
      cases later with
      | nil => exact first rest apart
      | cons second others =>
          have comma := (spells_mark noDot _).cons ((spells_layout layout _).append induction)
          rw [Text.joined, separated, List.append_assoc]
          refine (first _ (apart_cons (by decide) (by decide) _)).append comma
          all_goals simp

/-- Parts in brackets, however they are set. -/
theorem spells_enclosed {opening closing : Mark} (noDot : opening ≠ .dot ∧ closing ≠ .dot)
    {rest : List Char} (closes : Apart (closing.character :: rest)) {spacing : Text.Spacing} (blank : BlankSpacing spacing)
    {texts : List (List Char)} {parts : List (List Lexeme)} (each : SpellEach texts parts) :
    Spells (Text.enclosed opening.character closing.character spacing texts)
      (.mark opening :: separated parts ++ [.mark closing]) rest := by
  rcases blank.between with ⟨blanks, between, layout⟩
  have last := spells_mark noDot.2 rest
  have first (rest : List Char) := spells_mark noDot.1 rest
  rw [Text.enclosed]
  cases each with
  | nil => exact (first _).cons last
  | cons some more =>
      have behind := (spells_layout blank.behind _).append last
      have outside : Apart (spacing.behind ++ [closing.character] ++ rest) := by
        rw [List.append_assoc]
        exact apart_layout blank.behind closes
      have inside := (spells_joined layout (.cons some more) outside).append behind
      have all := (first _).cons ((spells_layout blank.before _).append inside)
      rw [if_neg (List.cons_ne_nil _ _), between]
      simpa using all

end DocShell.Token
