import DocShell.Proofs.Value.RoundTrip

namespace DocShell

/-! # Written patterns

A pattern has a literal just if it is closed. It comes back as it is written between the
slashes, which is written in the same way again; only patterns that cannot stand there
as they are have changed. -/

namespace Pattern

def rewritten (pattern : Pattern) : Pattern :=
  ⟨String.ofList (Value.writtenSource pattern.source), pattern.options⟩

/-- A slash that a scan meets neither behind a backslash nor in a class. -/
def BareSlash (escaped inClass : Bool) (source : List Char) : Prop :=
  ∃ front back, source = front ++ '/' :: back ∧ stateAfter escaped inClass front = (false, false)

theorem bareSlash_cons {escaped inClass : Bool} {character : Char} {rest : List Char} :
    BareSlash escaped inClass (character :: rest) ↔
      (character = '/' ∧ !escaped ∧ !inClass) ∨
        BareSlash (!escaped && character = '\\') (classAfter escaped inClass character) rest := by
  constructor
  · rintro ⟨_ | ⟨first, front⟩, back, equal, state⟩
    · cases equal
      cases state
      exact .inl ⟨rfl, rfl, rfl⟩
    · cases equal
      exact .inr ⟨front, back, rfl, state⟩
  · rintro (⟨rfl, plain, outside⟩ | ⟨front, back, rfl, state⟩)
    · refine ⟨[], rest, rfl, ?_⟩
      simp_all [stateAfter]
    · exact ⟨character :: front, back, rfl, state⟩

structure Verbatim (source : String) : Prop where
  nonempty : source ≠ ""
  noFeed : '\n' ∉ source.toList
  noReturn : '\r' ∉ source.toList
  noSlash : ¬BareSlash false false source.toList

end Pattern

namespace Value

open Pattern Token

theorem escapedSource_eq_self_iff {escaped inClass : Bool} {source : List Char} :
    escapedSource escaped inClass source = source ↔
      '\n' ∉ source ∧ '\r' ∉ source ∧ ¬BareSlash escaped inClass source := by
  induction source generalizing escaped inClass with
  | nil =>
      refine iff_of_true rfl ⟨List.not_mem_nil, List.not_mem_nil, ?_⟩
      rintro ⟨_ | _, _, equal, _⟩ <;> cases equal
  | cons character rest induction =>
      rw [escapedSource_cons, bareSlash_cons, List.mem_cons, List.mem_cons]
      split
      · rename_i feed
        exact iff_of_false (by rw [feed]; nofun) fun kept => kept.1 (.inl feed.symm)
      split
      · rename_i noFeed carriage
        exact iff_of_false (by rw [carriage]; nofun) fun kept => kept.2.1 (.inl carriage.symm)
      split
      · rename_i slash
        exact iff_of_false (by rw [slash.1]; nofun) fun kept => kept.2.2 (.inl slash)
      · rename_i noFeed noReturn noSlash
        rw [List.singleton_append, List.cons.injEq, induction]
        simp only [Ne.symm noFeed, Ne.symm noReturn, noSlash, true_and, false_or]

/-- Writing escapes nothing twice. -/
theorem escapedSource_escapedSource (escaped inClass : Bool) (source : List Char) :
    escapedSource escaped inClass (escapedSource escaped inClass source) =
      escapedSource escaped inClass source := by
  induction source generalizing escaped inClass with
  | nil => rfl
  | cons character rest induction =>
      have later := induction (!escaped && character = '\\') (classAfter escaped inClass character)
      rw [escapedSource_cons]
      generalize escapedSource _ _ rest = behind at later ⊢
      split
      · rename_i equal
        subst equal
        cases escaped <;> simp_all [escapedSource_cons, classAfter]
      split
      · rename_i equal
        subst equal
        cases escaped <;> simp_all [escapedSource_cons, classAfter]
      split
      · rename_i slash
        rcases slash with ⟨rfl, plain, outside⟩
        cases escaped <;> simp_all [escapedSource_cons, classAfter]
      · rename_i noFeed noReturn noSlash
        rw [List.singleton_append, escapedSource_cons, if_neg noFeed, if_neg noReturn,
          if_neg noSlash, later]
        rfl

theorem writtenSource_ofList (source : String) :
    writtenSource (String.ofList (writtenSource source)) = writtenSource source := by
  by_cases empty : source.toList = []
  · rw [writtenSource, writtenSource, if_pos empty]
    rfl
  · have written : writtenSource source = escapedSource false false source.toList := if_neg empty
    have nonempty : escapedSource false false source.toList ≠ [] := by
      cases text : source.toList with
      | nil => exact absurd text empty
      | cons first rest =>
          rw [escapedSource_cons]
          repeat' split
          all_goals exact List.cons_ne_nil _ _
    rw [written, writtenSource, String.toList_ofList, if_neg nonempty, escapedSource_escapedSource]

theorem rewritten_eq_self_iff (pattern : Pattern) :
    pattern.rewritten = pattern ↔ Verbatim pattern.source := by
  rcases pattern with ⟨source, options⟩
  have same : rewritten ⟨source, options⟩ = ⟨source, options⟩ ↔
      writtenSource source = source.toList := by
    rw [rewritten, Pattern.mk.injEq, and_iff_left rfl, ← String.toList_inj, String.toList_ofList]
  rw [same, writtenSource]
  by_cases empty : source = ""
  · rw [empty]
    exact iff_of_false (by decide) fun kept => kept.nonempty rfl
  · rw [if_neg (fun nothing => empty (String.toList_eq_nil_iff.mp nothing)),
      escapedSource_eq_self_iff]
    constructor
    · rintro ⟨noFeed, noReturn, noSlash⟩
      exact ⟨empty, noFeed, noReturn, noSlash⟩
    · exact fun kept => ⟨kept.noFeed, kept.noReturn, kept.noSlash⟩

/-- An open pattern runs over the slash behind it and finds no other one. -/
theorem closingSlash?_of_open {pattern : Pattern} (sound : pattern.Sound)
    (opened : isClosed pattern.source = false) :
    closingSlash? false (writtenSource pattern.source ++ '/' :: pattern.options.toList) = none := by
  have state : stateAfter false false pattern.source.toList ≠ (false, false) :=
    of_decide_eq_false opened
  have plain : ∀ letter ∈ pattern.options.toList, letter ∉ ['\n', '/', '\\', '[', ']'] :=
    fun letter member => plain_of_mem_optionLetters letter (sound.accepted.2.2 letter member)
  have run := slashFrom?_run (stateAfter false false pattern.source.toList).2 plain []
  rw [List.append_nil] at run
  rw [closingSlash?_eq, writtenSource, if_neg (source_ne_nil_of_open opened),
    slashFrom?_escapedSource, slashFrom?_slash state, run]
  rfl

theorem ofShell_open {pattern : Pattern} (sound : pattern.Sound)
    (opened : isClosed pattern.source = false) (indent limit : Nat) :
    ofShell limit ((regex pattern).shellText indent) =
      .error (.unreadable (.scan .openRegex) .start) := by
  have none := closingSlash?_of_open sound opened
  rcases exists_writtenSource_eq sound.accepted.1 with ⟨first, more, equal, noStar, noSlash⟩
  have fault : slash (writtenSource pattern.source ++ '/' :: pattern.options.toList) =
      .error .openRegex := by
    rw [equal] at none ⊢
    unfold slash
    split
    · rename_i clash
      exact absurd (List.cons.inj clash).1 noSlash
    · rename_i clash
      exact absurd (List.cons.inj clash).1 noStar
    · rw [none]
  have scanned : scan ((regex pattern).shellText indent) = .error (.openRegex, .start) := by
    have failed : step '/' (writtenSource pattern.source ++ '/' :: pattern.options.toList) =
        .error .openRegex := fault
    rw [scan, shellText, written, String.toList_ofList, List.cons_append, scanFrom, failed]
  rw [ofShell, Expr.parse, scanned]
  rfl

/-- Of all patterns, just the closed ones are read back from their literals. -/
theorem ofShell_shellText_regex {source options : String} {pattern : Pattern}
    (made : Pattern.new? source options = some pattern) (indent : Nat) {limit : Nat}
    (room : 1 ≤ limit) :
    (isClosed pattern.source = true →
      ofShell limit ((regex pattern).shellText indent) = .ok (.regex pattern.rewritten) ∧
        (regex pattern.rewritten).shellText indent = (regex pattern).shellText indent ∧
        (pattern.rewritten = pattern ↔ Verbatim pattern.source)) ∧
      (isClosed pattern.source = false →
        ofShell limit ((regex pattern).shellText indent) =
          .error (.unreadable (.scan .openRegex) .start)) := by
  have sound := (sound_of_new? made).1
  refine ⟨fun closed => ⟨?_, ?_, rewritten_eq_self_iff pattern⟩, fun opened =>
    ofShell_open sound opened indent limit⟩
  · have whole : (regex pattern).Sound := sound
    have closed : (regex pattern).Closed := closed
    exact ofShell_shellText_of_le whole closed indent room
  · rw [shellText, shellText, written, written, rewritten, writtenSource_ofList]

theorem ofShell_shellText_slashBehindClass :
    Pattern.new? "[/]/" "yi" = some ⟨"[/]/", "iy"⟩ ∧
      ofShell defaultLimit ((regex ⟨"[/]/", "iy"⟩).shellText 2) =
        .ok (.regex ⟨"[/]\\/", "iy"⟩) := by
  have made : Pattern.new? "[/]/" "yi" = some ⟨"[/]/", "iy"⟩ := by decide
  exact ⟨made, ((ofShell_shellText_regex made 2 (by decide)).1 (by decide)).1⟩

end Value

end DocShell
