import DocShell.Proofs.Bridge.RoundTrip
import DocShell.Proofs.Value.Shape

namespace DocShell

/-! # Neighbours of an open pattern

The shape of a value survives being written and read if its patterns are closed. A
pattern that is not closed runs over the slash that should end it, into the text
behind it, and there is a text that takes it from there: the array of the two is read
as an array of one pattern. -/

namespace Token

open Value Pattern

/-- What a pattern is read as that runs into the string behind it. -/
def overrun (pattern : Pattern) : List Char :=
  writtenSource pattern.source ++ '/' :: pattern.options.toList ++ [',', ' ', '"', ']']

theorem closingSlash?_overrun {pattern : Pattern} (sound : pattern.Sound)
    (opened : isClosed pattern.source = false) (rest : List Char) :
    closingSlash? false (overrun pattern ++ '/' :: rest) = some (overrun pattern).length := by
  have state : stateAfter false false pattern.source.toList ≠ (false, false) :=
    of_decide_eq_false opened
  have plain : ∀ letter ∈ pattern.options.toList, letter ∉ ['\n', '/', '\\', '[', ']'] :=
    fun letter member => plain_of_mem_optionLetters letter (sound.accepted.2.2 letter member)
  rw [closingSlash?_eq, overrun, writtenSource, if_neg (source_ne_nil_of_open opened)]
  rw [List.append_assoc, List.append_assoc, slashFrom?_escapedSource]
  generalize stateAfter false false pattern.source.toList = after at state
  rw [List.cons_append, slashFrom?_slash state, slashFrom?_run _ plain]
  have tail (inClass : Bool) :
      slashFrom? false inClass ([',', ' ', '"', ']'] ++ '/' :: rest) = some 4 := by
    cases inClass <;> rfl
  rw [tail]
  simp only [Option.map_some, List.length_append, List.length_cons, List.length_nil]
  congr 1
  omega

theorem exists_overrun_eq {pattern : Pattern} (sound : pattern.Sound) :
    ∃ first more, overrun pattern = first :: more ∧ first ≠ '*' ∧ first ≠ '/' := by
  rcases exists_writtenSource_eq sound.accepted.1 with ⟨first, more, equal, distinct⟩
  exact ⟨first, _, by rw [overrun, equal, List.cons_append, List.cons_append], distinct⟩

/-- A comment up to the end of the text. -/
theorem spells_lastComment {body : List Char} (oneLine : '\n' ∉ body) :
    Spells ('/' :: '/' :: body) [] [] := by
  intro position
  have all : body.takeWhile (· ≠ '\n') = body := by
    have run : (body ++ []).takeWhile (· ≠ '\n') = body :=
      Text.takeWhile_run (fun character member => decide_eq_true (ne_of_mem_of_not_mem member oneLine))
        (Text.leaves_nil _)
    rwa [List.append_nil] at run
  have found : step '/' ('/' :: body) = .ok (.gap, body.length + 1) := by
    change slash ('/' :: body) = _
    rw [slash, all]
  refine ⟨[], rfl, ?_⟩
  rw [List.append_nil, scanFrom, scanFrom, found]
  simp only [List.take_succ_cons, List.drop_succ_cons, List.take_length, List.drop_length]
  rw [scanFrom]
  rfl

end Token

namespace Value

open Token Pattern

/-- The text that takes over from any open pattern. -/
def intruder : String := "]/]//"

theorem written_beside_intruder (pattern : Pattern) :
    (array [.regex pattern, .string intruder]).written 0 0 =
      ['['] ++ (('/' :: overrun pattern ++ ['/']) ++ ([']'] ++ ['/', '/', '"', ']'])) := by
  have quoted : Text.quoted intruder = ['"', ']', '/', ']', '/', '/', '"'] := by decide
  simp [written, writtenItems, isAbsent, Text.enclosed, Text.joined, spacing, Text.Spacing.oneLine,
    quoted, overrun]

def swollen (pattern : Pattern) : Pattern := ⟨String.ofList (overrun pattern), ""⟩

theorem sound_swollen {pattern : Pattern} (sound : pattern.Sound) : (swollen pattern).Sound := by
  rcases exists_overrun_eq sound with ⟨first, more, equal, noStar, _⟩
  have accepted : (swollen pattern).source.toList.head? ≠ some '*' := by
    rw [swollen, String.toList_ofList, equal]
    simpa using noStar
  have letters : ("" : String).toList = [] := rfl
  rw [Pattern.Sound, new?, if_pos]
  · rfl
  · rw [swollen, letters]
    exact ⟨accepted, List.nodup_nil, rfl⟩

theorem return_not_mem_overrun {pattern : Pattern} (sound : pattern.Sound)
    (opened : isClosed pattern.source = false) : '\r' ∉ overrun pattern := by
  have letters : '\r' ∉ optionLetters := by decide
  rw [overrun, writtenSource, if_neg (source_ne_nil_of_open opened)]
  intro member
  simp only [List.mem_append, List.mem_cons, List.not_mem_nil, or_false] at member
  rcases member with (source | slash | option) | tail
  · exact (noBreak_of_mem_escapedSource source).2 rfl
  · cases slash
  · exact letters (sound.accepted.2.2 _ option)
  · simp at tail

theorem writtenSource_swollen {pattern : Pattern} (sound : pattern.Sound)
    (opened : isClosed pattern.source = false) :
    writtenSource (swollen pattern).source = overrun pattern := by
  have closing := closingSlash?_overrun sound opened []
  rw [closingSlash?_eq] at closing
  have kept := (closed_of_slashFrom? closing).2
  rw [List.take_left] at kept
  rcases exists_overrun_eq sound with ⟨first, more, equal, _⟩
  rw [swollen, writtenSource, String.toList_ofList, if_neg (equal ▸ List.cons_ne_nil first more)]
  exact kept (return_not_mem_overrun sound opened)

theorem scan_beside_intruder {pattern : Pattern} (sound : pattern.Sound)
    (opened : isClosed pattern.source = false) :
    ∃ tokens finish,
      Token.scan ((array [.regex pattern, .string intruder]).shellText 0) = .ok (tokens, finish) ∧
        tokens.map (·.lexeme) = (array [.regex (swollen pattern)]).lexemes := by
  have literal : Spells ('/' :: overrun pattern ++ ['/'])
      [.regex (String.ofList (overrun pattern)) ""] [']', '/', '/', '"', ']'] :=
    spells_literal (exists_overrun_eq sound) (closingSlash?_overrun sound opened _) rfl
  have noDot : Mark.bracketOpen ≠ .dot ∧ Mark.bracketClose ≠ .dot := by decide
  have comment : Spells ['/', '/', '"', ']'] [] [] := spells_lastComment (by decide)
  have closing := (spells_mark noDot.2 _).append comment
  have all := (spells_mark noDot.1 _).append (literal.append closing)
  have whole := all.scan
  have listed : (array [.regex (swollen pattern)]).lexemes = [.mark .bracketOpen,
      .regex (String.ofList (overrun pattern)) "", .mark .bracketClose] := by
    rw [← writtenSource_swollen sound opened]
    rfl
  rw [shellText, written_beside_intruder, listed]
  exact whole

theorem ofShell_beside_intruder {pattern : Pattern} (sound : pattern.Sound)
    (opened : isClosed pattern.source = false) :
    ofShell defaultLimit ((array [.regex pattern, .string intruder]).shellText 0) =
      .ok (.array [.regex (swollen pattern)]) := by
  rcases scan_beside_intruder sound opened with ⟨tokens, finish, scanned, lexemes⟩
  have levels : (array [.regex (swollen pattern)]).need ≤ defaultLimit :=
    (by decide : 3 ≤ defaultLimit)
  have inside : (array [.regex (swollen pattern)]).Sound := ⟨trivial, sound_swollen sound, trivial⟩
  rw [ofShell_of_lexemes inside scanned lexemes levels, normal, normalItems, normalItems, normal,
    writtenSource_swollen sound opened]
  rfl

/-! ## Which patterns are safe -/

def PatternHere (allowed : Pattern → Prop) : Value → Prop
  | .regex pattern => allowed pattern
  | _ => True

def PatternsIn (allowed : Pattern → Prop) (value : Value) : Prop :=
  value.Everywhere (PatternHere allowed)

theorem PatternsIn.closed {allowed : Pattern → Prop} {value : Value}
    (inside : value.PatternsIn allowed) (sound : value.Sound)
    (safe : ∀ pattern, pattern.Sound → allowed pattern → isClosed pattern.source = true) :
    value.Closed := by
  refine Everywhere.combine sound inside fun part good allowed => ?_
  cases part with
  | regex pattern => exact safe pattern good allowed
  | _ => trivial

/-- The shape of all accepted values with patterns of some kind survives just if these
patterns are closed. For one that is open, a string behind it is enough to lose it. -/
theorem shape_kept_iff_closed (allowed : Pattern → Prop) :
    (∀ text value, ofJsonText text = .ok value → value.PatternsIn allowed →
      ∀ read, ofShell defaultLimit (value.shellText 0) = .ok read → read.shape = value.shape) ↔
    ∀ pattern : Pattern, pattern.Sound → allowed pattern → isClosed pattern.source = true := by
  constructor
  · intro kept pattern sound inside
    cases closed : isClosed pattern.source with
    | true => rfl
    | false =>
        have lost := kept _ _ (ofJsonText_patternBeside sound intruder)
          ⟨trivial, inside, trivial, trivial⟩ _ (ofShell_beside_intruder sound closed)
        cases lost
  · intro safe text value accepted inside read found
    have sound := sound_of_ofJsonText accepted
    rw [ofShell_shellText_of_le sound (inside.closed sound safe) 0
      (need_le_of_ofJsonText accepted)] at found
    cases found
    rcases exists_json_of_ofJsonText accepted with ⟨json, _, imported⟩
    exact shape_normal (present_of_ofJson imported)

theorem shape_lost_beside_openClass :
    ofJsonText "[\x7b\"$regularExpression\":\x7b\"pattern\":\"[\",\"options\":\"\"\x7d\x7d,\"]/]//\"]" =
        .ok (.array [.regex ⟨"[", ""⟩, .string "]/]//"]) ∧
      ofShell defaultLimit ((array [.regex ⟨"[", ""⟩, .string "]/]//"]).shellText 0) =
        .ok (.array [.regex ⟨"[/, \"]", ""⟩]) ∧
      (array [.regex ⟨"[/, \"]", ""⟩]).shape ≠
        (array [.regex ⟨"[", ""⟩, .string "]/]//"]).shape := by
  have sound : Pattern.Sound ⟨"[", ""⟩ := rfl
  refine ⟨ofJsonText_patternBeside sound intruder, ofShell_beside_intruder sound rfl, ?_⟩
  intro same
  cases same

end Value

end DocShell
