import DocShell.Proofs.Token.Spells
import DocShell.Value.Written

namespace DocShell

/-! # Closed patterns

A pattern can stand between slashes if a scan over it ends outside a class of
characters and not right behind a backslash. Writing a pattern keeps the course of
that scan, and what a regular expression literal holds is always closed. -/

namespace Pattern

def classAfter (escaped inClass : Bool) (character : Char) : Bool :=
  if escaped then inClass
  else if character = '[' then true
  else if character = ']' then false
  else inClass

/-- Whether a scan ends right behind a backslash, and whether it ends in a class. -/
def stateAfter (escaped inClass : Bool) : List Char → Bool × Bool
  | [] => (escaped, inClass)
  | character :: rest =>
      stateAfter (!escaped && character = '\\') (classAfter escaped inClass character) rest

def isClosed (source : String) : Bool := stateAfter false false source.toList = (false, false)

example : isClosed "[/]\\[" = true ∧ isClosed "[" = false ∧ isClosed "\\" = false := by decide

end Pattern

namespace Value

open Pattern

/-! ## Writing -/

theorem escapedSource_cons (escaped inClass : Bool) (character : Char) (rest : List Char) :
    escapedSource escaped inClass (character :: rest) =
      (if character = '\n' then ['\\', 'n']
        else if character = '\r' then ['\\', 'r']
        else if character = '/' ∧ !escaped ∧ !inClass then ['\\', '/']
        else [character]) ++
      escapedSource (!escaped && character = '\\') (classAfter escaped inClass character) rest := by
  rw [escapedSource]
  unfold classAfter
  repeat' split
  all_goals rfl

theorem noBreak_of_mem_escapedSource {escaped inClass : Bool} {source : List Char}
    {character : Char} (member : character ∈ escapedSource escaped inClass source) :
    character ≠ '\n' ∧ character ≠ '\r' := by
  induction source generalizing escaped inClass with
  | nil => cases member
  | cons first rest induction =>
      rw [escapedSource_cons, List.mem_append] at member
      rcases member with here | later
      · repeat' split at here
        all_goals
          simp only [List.mem_cons, List.not_mem_nil, or_false] at here
        · rcases here with rfl | rfl <;> decide
        · rcases here with rfl | rfl <;> decide
        · rcases here with rfl | rfl <;> decide
        · subst here
          exact ⟨‹_›, ‹_›⟩
      · exact induction later

end Value

namespace Token

open Value Pattern

/-! ## Reading

The search for the closing slash takes a backslash together with the character
behind it. Taken one at a time, with the state that patterns are scanned with, the
characters lead to the same slash. -/

def slashFrom? (escaped inClass : Bool) : List Char → Option Nat
  | [] => none
  | character :: rest =>
      if character = '\n' then none
      else if character = '/' ∧ !escaped ∧ !inClass then some 0
      else
        (slashFrom? (!escaped && character = '\\') (classAfter escaped inClass character) rest).map
          (· + 1)

theorem slashFrom?_escaped {character : Char} (noBreak : character ≠ '\n') (inClass : Bool)
    (rest : List Char) :
    slashFrom? true inClass (character :: rest) = (slashFrom? false inClass rest).map (· + 1) := by
  rw [slashFrom?, if_neg noBreak, if_neg (by simp)]
  rfl

theorem closingSlash?_eq (inClass : Bool) (text : List Char) :
    closingSlash? inClass text = slashFrom? false inClass text := by
  fun_induction closingSlash? inClass text with
  | case1 => rfl
  | case2 => rfl
  | case3 inClass rest => rfl
  | case4 inClass escaped rest noBreak induction =>
      rw [induction, slashFrom?, if_neg (by decide), if_neg (by simp)]
      change _ = (slashFrom? true inClass (escaped :: rest)).map (· + 1)
      rw [slashFrom?_escaped noBreak, Option.map_map]
      rfl
  | case5 => rfl
  | case6 inClass character rest noSlash noPair noBreak closes =>
      rw [slashFrom?, if_neg noBreak, if_pos (by simpa using closes)]
  | case7 inClass character rest noEnd noPair noBreak noClose next induction =>
      have plain : character ≠ '\\' := by
        rintro rfl
        cases rest with
        | nil => exact noEnd rfl rfl
        | cons second more => exact noPair second more rfl rfl
      rw [induction, slashFrom?, if_neg noBreak, if_neg (by simpa using noClose),
        decide_eq_false plain]
      rfl

/-- No slash within a written pattern closes the literal. -/
theorem slashFrom?_escapedSource (escaped inClass : Bool) (source rest : List Char) :
    slashFrom? escaped inClass (escapedSource escaped inClass source ++ rest) =
      (slashFrom? (stateAfter escaped inClass source).1 (stateAfter escaped inClass source).2
        rest).map (· + (escapedSource escaped inClass source).length) := by
  induction source generalizing escaped inClass with
  | nil => exact Option.map_id'.symm
  | cons character more induction =>
      have later := induction (!escaped && character = '\\') (classAfter escaped inClass character)
      rw [escapedSource_cons, stateAfter]
      generalize escapedSource _ _ more = behind at later ⊢
      generalize stateAfter _ _ more = state at later ⊢
      split
      · rename_i equal
        subst equal
        cases escaped <;> simp_all [slashFrom?, classAfter, Function.comp_def, Nat.add_assoc]
      split
      · rename_i equal
        subst equal
        cases escaped <;> simp_all [slashFrom?, classAfter, Function.comp_def, Nat.add_assoc]
      split
      · rename_i slash
        rcases slash with ⟨rfl, plain, outside⟩
        cases escaped <;>
          simp_all [slashFrom?, classAfter, Function.comp_def, Nat.add_assoc]
      · rename_i noBreak _ noSlash
        rw [List.singleton_append, List.cons_append, slashFrom?, if_neg noBreak, if_neg noSlash,
          later, Option.map_map]
        rfl

/-- A character that the scan for the closing slash passes over in any state. -/
theorem slashFrom?_plain {character : Char}
    (plain : character ∉ ['\n', '/', '\\', '[', ']']) (inClass : Bool) (rest : List Char) :
    slashFrom? false inClass (character :: rest) =
      (slashFrom? false inClass rest).map (· + 1) := by
  simp only [List.mem_cons, List.not_mem_nil, or_false, not_or] at plain
  rcases plain with ⟨noBreak, noSlash, noEscape, noOpen, noClose⟩
  simp only [slashFrom?, classAfter, noBreak, noSlash, noEscape, noOpen, noClose, false_and,
    if_false, decide_false, Bool.and_false, Bool.false_eq_true]

theorem slashFrom?_run (inClass : Bool) {run : List Char}
    (plain : ∀ character ∈ run, character ∉ ['\n', '/', '\\', '[', ']']) (rest : List Char) :
    slashFrom? false inClass (run ++ rest) =
      (slashFrom? false inClass rest).map (· + run.length) := by
  induction run with
  | nil => exact Option.map_id'.symm
  | cons character run induction =>
      have later := induction fun more member => plain more (List.mem_cons_of_mem _ member)
      rw [List.cons_append, slashFrom?_plain (plain character List.mem_cons_self), later,
        Option.map_map]
      rfl

/-- A slash that does not close the literal is passed over like any other character. -/
theorem slashFrom?_slash {escaped inClass : Bool} (opened : (escaped, inClass) ≠ (false, false))
    (rest : List Char) :
    slashFrom? escaped inClass ('/' :: rest) = (slashFrom? false inClass rest).map (· + 1) := by
  cases escaped with
  | true => exact slashFrom?_escaped (by decide) inClass rest
  | false =>
      cases inClass with
      | true => rfl
      | false => exact absurd rfl opened

/-- What stands in a literal is closed. Written again it stays the same, unless it
holds a carriage return. -/
theorem closed_of_slashFrom? {escaped inClass : Bool} {text : List Char} {count : Nat}
    (found : slashFrom? escaped inClass text = some count) :
    stateAfter escaped inClass (text.take count) = (false, false) ∧
      ('\r' ∉ text.take count →
        escapedSource escaped inClass (text.take count) = text.take count) := by
  induction text generalizing escaped inClass count with
  | nil => cases found
  | cons character rest induction =>
      rw [slashFrom?] at found
      split at found
      · cases found
      split at found
      · rename_i slash
        cases found
        simp_all [stateAfter, escapedSource]
      · rename_i noBreak noSlash
        rcases Option.map_eq_some_iff.mp found with ⟨fewer, later, rfl⟩
        rcases induction later with ⟨closed, written⟩
        refine ⟨closed, fun noReturn => ?_⟩
        rw [List.take_succ_cons, List.mem_cons, not_or] at noReturn
        rw [List.take_succ_cons, escapedSource_cons, if_neg noBreak, if_neg (Ne.symm noReturn.1),
          if_neg noSlash, written noReturn.2]
        rfl

end Token

namespace Value

/-- A written pattern opens no comment. -/
theorem exists_writtenSource_eq {source : String} (noStar : source.toList.head? ≠ some '*') :
    ∃ first more, writtenSource source = first :: more ∧ first ≠ '*' ∧ first ≠ '/' := by
  rw [writtenSource]
  cases text : source.toList with
  | nil => exact ⟨'(', ['?', ':', ')'], rfl, by decide, by decide⟩
  | cons character rest =>
      rw [text] at noStar
      rw [if_neg (List.cons_ne_nil _ _), escapedSource_cons]
      split
      · exact ⟨'\\', _, rfl, by decide, by decide⟩
      split
      · exact ⟨'\\', _, rfl, by decide, by decide⟩
      split
      · exact ⟨'\\', _, rfl, by decide, by decide⟩
      · rename_i noSlash
        refine ⟨character, _, rfl, ?_, ?_⟩
        · rintro rfl
          exact noStar rfl
        · rintro rfl
          exact noSlash ⟨rfl, rfl, rfl⟩

end Value

namespace Pattern

theorem all_optionLetters {letters : List Char} :
    letters.all (· ∈ optionLetters) = true ↔ ∀ letter ∈ letters, letter ∈ optionLetters := by
  simp only [List.all_eq_true, decide_eq_true_eq]

def Sound (pattern : Pattern) : Prop := new? pattern.source pattern.options = some pattern

theorem Sound.accepted {pattern : Pattern} (sound : pattern.Sound) :
    pattern.source.toList.head? ≠ some '*' ∧ pattern.options.toList.Nodup ∧
      ∀ letter ∈ pattern.options.toList, letter ∈ optionLetters := by
  simp only [Sound, new?] at sound
  split at sound
  · rename_i accepted
    exact ⟨accepted.1, accepted.2.1, all_optionLetters.mp accepted.2.2⟩
  · cases sound

/-- Another source may take the place of the source of a pattern. -/
theorem Sound.replace {pattern : Pattern} (sound : pattern.Sound) {source : String}
    (noStar : source.toList.head? ≠ some '*') :
    new? source pattern.options = some ⟨source, pattern.options⟩ := by
  rcases sound.accepted with ⟨first, nodup, inside⟩
  have letters := all_optionLetters.mpr inside
  have kept := sound
  rw [Sound, new?, if_pos ⟨first, nodup, letters⟩] at kept
  have options := congrArg Pattern.options (Option.some.inj kept)
  dsimp only at options
  rw [new?, if_pos ⟨noStar, nodup, letters⟩, options]

theorem sound_of_new? {source options : String} {pattern : Pattern}
    (made : new? source options = some pattern) : pattern.Sound ∧ pattern.source = source := by
  simp only [new?] at made
  split at made
  · rename_i accepted
    cases made
    refine ⟨?_, rfl⟩
    simp only [Sound, new?, String.toList_ofList]
    rw [if_pos]
    · congr 3
      refine List.filter_congr fun letter member => ?_
      simp [member]
    · refine ⟨accepted.1, List.Nodup.sublist List.filter_sublist (by decide), ?_⟩
      exact all_optionLetters.mpr fun letter member => (List.mem_filter.mp member).1
  · cases made

end Pattern

namespace Token

open Value Pattern

theorem isOptionPart_of_mem_optionLetters :
    ∀ letter ∈ optionLetters, Text.isOptionPart letter = true :=
  List.all_eq_true.mp (by decide)

theorem plain_of_mem_optionLetters :
    ∀ letter ∈ optionLetters, letter ∉ ['\n', '/', '\\', '[', ']'] :=
  Text.forall_of_all (by decide)

theorem source_ne_nil_of_open {source : String} (opened : isClosed source = false) :
    source.toList ≠ [] := by
  intro empty
  rw [isClosed, empty] at opened
  cases opened

theorem closingSlash?_writtenSource {source : String} (closed : isClosed source = true)
    (rest : List Char) :
    closingSlash? false (writtenSource source ++ '/' :: rest) =
      some (writtenSource source).length := by
  rw [closingSlash?_eq, writtenSource]
  split
  · rfl
  · have state : stateAfter false false source.toList = (false, false) := of_decide_eq_true closed
    rw [slashFrom?_escapedSource, state]
    exact congrArg some (Nat.zero_add _)

/-- What a slash begins that opens no comment, up to the slash that closes it and with the
options behind that. -/
theorem slash_literal {source options rest : List Char}
    (starts : ∃ first more, source = first :: more ∧ first ≠ '*' ∧ first ≠ '/')
    (closing : closingSlash? false (source ++ '/' :: (options ++ rest)) = some source.length)
    (taken : (options ++ rest).takeWhile Text.isOptionPart = options) :
    slash (source ++ '/' :: (options ++ rest)) =
      .ok (.lexeme (.regex (String.ofList source) (String.ofList options)),
        source.length + 1 + options.length) := by
  rcases starts with ⟨first, more, rfl, noStar, noSlash⟩
  unfold slash
  split
  · rename_i clash
    exact absurd (List.cons.inj clash).1 noSlash
  · rename_i clash
    exact absurd (List.cons.inj clash).1 noStar
  · have behind : (first :: more ++ '/' :: (options ++ rest)).drop
        ((first :: more).length + 1) = options ++ rest := by
      rw [← List.drop_drop, List.drop_left, List.drop_one, List.tail_cons]
    simp only [closing, behind, taken, List.take_left]

/-- A regular expression literal, up to the slash that closes it and with its options. -/
theorem spells_literal {source options rest : List Char}
    (starts : ∃ first more, source = first :: more ∧ first ≠ '*' ∧ first ≠ '/')
    (closing : closingSlash? false (source ++ '/' :: (options ++ rest)) = some source.length)
    (taken : (options ++ rest).takeWhile Text.isOptionPart = options) :
    Spells ('/' :: source ++ '/' :: options)
      [.regex (String.ofList source) (String.ofList options)] rest := by
  have one : step '/' ((source ++ '/' :: options) ++ rest) =
      .ok (.lexeme (.regex (String.ofList source) (String.ofList options)),
        (source ++ '/' :: options).length) := by
    rw [List.append_assoc, List.length_append, List.length_cons, Nat.add_comm _ 1, ← Nat.add_assoc]
    exact slash_literal starts closing taken
  exact spells_of_step one

/-- A closed pattern is read back from between its slashes. -/
theorem spells_regex {pattern : Pattern} (sound : pattern.Sound)
    (closed : isClosed pattern.source = true) {rest : List Char} (apart : Apart rest) :
    Spells ('/' :: writtenSource pattern.source ++ '/' :: pattern.options.toList)
      [.regex (String.ofList (writtenSource pattern.source)) pattern.options] rest := by
  have taken : (pattern.options.toList ++ rest).takeWhile Text.isOptionPart =
      pattern.options.toList :=
    Text.takeWhile_run (fun letter member =>
      isOptionPart_of_mem_optionLetters letter (sound.accepted.2.2 letter member)) apart.options
  have literal := spells_literal (exists_writtenSource_eq sound.accepted.1)
    (closingSlash?_writtenSource closed _) taken
  rwa [String.ofList_toList] at literal

end Token

end DocShell
