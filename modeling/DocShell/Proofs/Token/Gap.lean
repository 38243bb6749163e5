import DocShell.Proofs.Token.Behind
import DocShell.Proofs.Token.Reached

namespace DocShell.Token

/-! # Blanks and comments between lexemes

Anything that a text may hold between two of its lexemes can be put right in front of a
lexeme or right behind one, and the scan finds the same lexemes as before. In front of it,
every lexeme ends where it did, for no lexeme goes on with a blank or a slash; and behind
it, the scan goes on as if nothing stood there, whatever comes next. -/

/-- Blanks, comments between stars, and comments up to a line feed. -/
inductive Gap : List Char → Prop
  | nil : Gap []
  | blank {character : Char} {rest : List Char} (isBlank : Text.isBlank character = true)
      (behind : Gap rest) : Gap (character :: rest)
  | stars {body rest : List Char} (stays : ¬['*', '/'] <:+: body) (behind : Gap rest) :
      Gap ('/' :: '*' :: (body ++ '*' :: '/' :: rest))
  | line {body rest : List Char} (stays : '\n' ∉ body) (behind : Gap rest) :
      Gap ('/' :: '/' :: (body ++ '\n' :: rest))

/-! ## What a gap spells -/

/-- A text that is one step of the scan and no lexeme. -/
theorem spells_of_gap {first : Char} {more rest : List Char}
    (found : step first (more ++ rest) = .ok (.gap, more.length)) :
    Spells (first :: more) [] rest := by
  intro position
  refine ⟨[], rfl, ?_⟩
  rw [List.cons_append, scanFrom, found]
  simp only [List.take_left, List.drop_left, Position.afterAll_cons]
  cases scanFrom ((position.after first).afterAll more) rest <;> rfl

theorem spells_stars {inside rest : List Char}
    (closes : commentLength? (inside ++ rest) = some inside.length) :
    Spells ('/' :: '*' :: inside) [] rest := by
  refine spells_of_gap ?_
  have found : slash ('*' :: (inside ++ rest)) = .ok (.gap, inside.length + 1) := by
    rw [slash, closes]
  exact found

/-- A comment up to a line feed ends with a line feed or with the text. -/
theorem spells_line {body rest : List Char} (stays : '\n' ∉ body)
    (ends : ∀ next ∈ rest.head?, next = '\n') : Spells ('/' :: '/' :: body) [] rest := by
  refine spells_of_gap ?_
  have inside : ∀ character ∈ body, decide (character ≠ '\n') = true := by
    intro character member
    refine decide_eq_true ?_
    rintro rfl
    exact stays member
  have leaves : Text.Leaves (fun character => decide (character ≠ '\n')) rest := by
    intro next begins
    rw [ends next begins]
    rfl
  have found : slash ('/' :: (body ++ rest)) = .ok (.gap, body.length + 1) := by
    rw [slash, Text.takeWhile_run inside leaves]
  exact found

theorem commentLength?_body {body : List Char} (stays : ¬['*', '/'] <:+: body)
    (rest : List Char) : commentLength? (body ++ '*' :: '/' :: rest) = some (body.length + 2) := by
  induction body with
  | nil => rfl
  | cons first body induction =>
      have later := induction fun inner => stays (inner.trans (List.suffix_cons _ _).isInfix)
      rw [List.cons_append, commentLength?, later]
      · rfl
      · intro more star equal
        cases star
        cases body with
        | nil => cases equal
        | cons second body =>
            cases equal
            exact stays ⟨[], body, rfl⟩

theorem Gap.spells {gap : List Char} (isGap : Gap gap) (rest : List Char) :
    Spells gap [] rest := by
  induction isGap with
  | nil => exact spells_nil rest
  | @blank character more isBlank _ induction =>
      have first : Spells [character] [] (more ++ rest) :=
        spells_blanks (by simpa using isBlank) _
      exact first.append induction
  | @stars body more stays _ induction =>
      have first : Spells ('/' :: '*' :: (body ++ ['*', '/'])) [] (more ++ rest) := by
        refine spells_stars ?_
        rw [List.append_assoc, List.length_append]
        exact commentLength?_body stays _
      have both := first.append induction
      simpa using both
  | @line body more stays _ induction =>
      have feed : Spells ['\n'] [] (more ++ rest) := spells_blanks (by simp; decide) _
      have behind : Spells (['\n'] ++ more) [] rest := feed.append induction
      have first : Spells ('/' :: '/' :: body) [] (['\n'] ++ more ++ rest) :=
        spells_line stays (by simp)
      have all := first.append behind
      simpa using all

/-! ## Lexemes in front of a gap -/

theorem outside_of_blankRanges : ∀ range ∈ Text.blankRanges,
    ∀ offset ∈ List.range (range.2 + 1 - range.1),
      (Text.isOptionPart (Char.ofNat (range.1 + offset)) ||
        Char.ofNat (range.1 + offset) ∈ ['.', '+', '-']) = false := by decide +kernel

theorem stops_blank {blank : Char} (isBlank : Text.isBlank blank = true) (rest : List Char) :
    Stops (blank :: rest) := by
  rcases Text.exists_range_of_inRanges isBlank with ⟨range, member, lower, upper⟩
  have outside := outside_of_blankRanges range member (blank.toNat - range.1)
    (List.mem_range.mpr (by omega))
  rw [Nat.add_sub_cancel' lower, Char.ofNat_toNat] at outside
  exact Text.leaves_cons outside rest

theorem stops_slash (rest : List Char) : Stops ('/' :: rest) :=
  Text.leaves_cons (by decide +kernel) rest

theorem Gap.stops {gap : List Char} (isGap : Gap gap) (nonempty : gap ≠ []) (rest : List Char) :
    Stops (gap ++ rest) := by
  cases isGap with
  | nil => exact absurd rfl nonempty
  | blank isBlank => exact stops_blank isBlank _
  | stars => exact stops_slash _
  | line => exact stops_slash _

/-! ## Gaps that are already there -/

/-- A run that is as long as the front of a text is that front. -/
theorem run_of_length_takeWhile {test : Char → Bool} {inside behind : List Char}
    (same : ((inside ++ behind).takeWhile test).length = inside.length) :
    (∀ character ∈ inside, test character = true) ∧ Text.Leaves test behind := by
  have run : (inside ++ behind).takeWhile test = inside :=
    (List.prefix_iff_eq_take.mp (List.takeWhile_prefix test)).trans (by rw [same, List.take_left])
  have all : ∀ character ∈ inside, test character = true :=
    fun character member => List.all_eq_true.mp List.all_takeWhile character (run ▸ member)
  refine ⟨all, fun next begins => ?_⟩
  rcases List.head?_eq_some_iff.mp begins with ⟨more, rfl⟩
  cases goesOn : test next with
  | false => rfl
  | true =>
      rw [List.takeWhile_append_of_pos all, List.takeWhile_cons_of_pos goesOn] at run
      simp at run

theorem spells_of_slash {inside behind other : List Char}
    (found : slash (inside ++ behind) = .ok (.gap, inside.length))
    (ends : (∀ next ∈ behind.head?, next = '\n') → ∀ next ∈ other.head?, next = '\n') :
    Spells ('/' :: inside) [] other := by
  cases inside with
  | nil =>
      unfold slash at found
      split at found
      · cases found
      · split at found <;> cases found
      · split at found <;> cases found
  | cons first inside =>
      rw [List.cons_append] at found
      unfold slash at found
      split at found
      · rename_i rest begins
        cases begins
        have run := run_of_length_takeWhile (Nat.succ.inj (Prod.mk.inj (Except.ok.inj found)).2)
        refine spells_line (fun feed => ?_) (ends fun next begins => ?_)
        · exact absurd rfl (of_decide_eq_true (run.1 _ feed))
        · simpa using run.2 next begins
      · rename_i rest begins
        cases begins
        split at found
        · rename_i count closes
          cases found
          exact spells_stars (commentLength?_of_append closes (Nat.le_refl _) other)
        · cases found
      · split at found <;> cases found

/-- What one step passes over, it passes over again in front of anything else, except that a
comment up to a line feed has to stay in front of one. -/
theorem spells_of_gap_step {first : Char} {inside behind other : List Char}
    (found : step first (inside ++ behind) = .ok (.gap, inside.length))
    (ends : (∀ next ∈ behind.head?, next = '\n') → ∀ next ∈ other.head?, next = '\n') :
    Spells (first :: inside) [] other := by
  unfold step at found
  split at found
  · rename_i isBlank
    have run := run_of_length_takeWhile (Prod.mk.inj (Except.ok.inj found)).2
    exact spells_blanks (List.forall_mem_cons.mpr ⟨isBlank, run.1⟩) other
  split at found
  · split at found <;> cases found
  split at found
  · unfold quotation at found
    split at found
    · split at found <;> cases found
    · cases found
  split at found
  · rename_i isSlash
    cases isSlash
    exact spells_of_slash found ends
  split at found
  · cases found
  · split at found <;> cases found

/-! ## Where a gap may stand -/

/-- A lexeme of a text, with the characters in front of it, its own, and those behind it. -/
structure Occurs (text front inside back : List Char) (lexeme : Lexeme) : Prop where
  reached : Reached text front (inside ++ back)
  cut : ∃ first more, inside = first :: more ∧
    step first (more ++ back) = .ok (.lexeme lexeme, more.length)

/-- A step takes a part of the text off its front. -/
theorem exists_inside_of_step {first : Char} {rest : List Char} {piece : Piece} {count : Nat}
    (found : step first rest = .ok (piece, count)) :
    ∃ inside behind, rest = inside ++ behind ∧ count = inside.length :=
  ⟨rest.take count, rest.drop count, (List.take_append_drop count rest).symm,
    (List.length_take_of_le (step_le found)).symm⟩

/-- Every token of a text occurs in it, at its position. -/
theorem occurs_of_scan {text : String} {tokens : List Token} {finish : Position}
    (found : scan text = .ok (tokens, finish)) {token : Token} (member : token ∈ tokens) :
    ∃ front inside back, Occurs text.toList front inside back token.lexeme ∧
      token.position = .counted front := by
  have counted : Counted text.toList (scan text) := counted_of_scanFrom .start rfl
  rw [found] at counted
  rcases counted.1 token member with ⟨front, ⟨first, rest, count, reached, cut⟩, place⟩
  rcases exists_inside_of_step cut with ⟨inside, behind, rfl, rfl⟩
  exact ⟨front, first :: inside, behind, ⟨reached, first, inside, rfl, cut⟩, place⟩

/-- What stands in front of a place is passed over again, with the same lexemes, if the text
behind that place, or some way behind it, gives way to a text that no lexeme goes on with. -/
theorem Reached.exists_spells {text front rest : List Char} (reached : Reached text front rest)
    {shared back other : List Char} (parts : rest = shared ++ back) (stops : Stops other)
    (noLine : shared = [] → back.head? ∉ [none, some '\n']) :
    ∃ lexemes, Spells front lexemes rest ∧ Spells front lexemes (shared ++ other) := by
  -- Whatever the last step takes belongs to what is shared when the steps before it are looked at.
  induction reached generalizing shared back with
  | start => exact ⟨[], spells_nil _, spells_nil _⟩
  | @step front first rest piece count _ cut induction =>
      rcases exists_inside_of_step cut with ⟨inside, behind, rfl, rfl⟩
      rw [List.take_left, List.drop_left] at *
      cases parts
      have parted : first :: (inside ++ (shared ++ back)) = first :: inside ++ shared ++ back := by
        rw [List.append_assoc, List.cons_append]
      rcases induction parted (fun empty => absurd empty (List.cons_ne_nil _ _)) with
        ⟨lexemes, before, again⟩
      rw [List.append_assoc] at again
      cases piece with
      | gap =>
          refine ⟨lexemes ++ [], before.append ?_, again.append ?_⟩
          · exact spells_of_gap_step cut id
          · refine spells_of_gap_step cut fun line => ?_
            cases shared with
            | nil =>
                have noLine := noLine rfl
                cases back with
                | nil => simp at noLine
                | cons next back => simp [line next rfl] at noLine
            | cons next shared => exact line
      | lexeme lexeme =>
          rw [← List.append_assoc] at cut
          have elsewhere := step_of_append stops cut (by simp)
          rw [List.append_assoc] at cut elsewhere
          exact ⟨lexemes ++ [lexeme], before.append (spells_of_step cut),
            again.append (spells_of_step elsewhere)⟩

/-! ## The lexemes of a whole text -/

/-- What a scan finds, wherever it stands. -/
def kinds : Except (ScanFault × Position) (List Token × Position) → Except ScanFault (List Lexeme)
  | .ok (tokens, _) => .ok (tokens.map (·.lexeme))
  | .error (fault, _) => .error fault

theorem kinds_prepend (tokens : List Token)
    (result : Except (ScanFault × Position) (List Token × Position)) :
    kinds (prepend tokens result) = (kinds result).map (tokens.map (·.lexeme) ++ ·) := by
  cases result with
  | error located => rfl
  | ok found => exact congrArg Except.ok List.map_append

theorem kinds_scanFrom_cons (position : Position) (first : Char) (rest : List Char) :
    kinds (scanFrom position (first :: rest)) =
      match step first rest with
      | .error fault => .error fault
      | .ok (piece, count) =>
          let behind := kinds (scanFrom (position.afterAll (first :: rest.take count))
            (rest.drop count))
          match piece with
          | .gap => behind
          | .lexeme lexeme => behind.map (lexeme :: ·) := by
  rw [scanFrom]
  cases step first rest with
  | error fault => rfl
  | ok found =>
      rcases found with ⟨piece, count⟩
      simp only
      generalize scanFrom (position.afterAll (first :: rest.take count)) (rest.drop count) = later
      cases later with
      | error located => cases piece <;> rfl
      | ok found => cases piece <;> rfl

/-- The lexemes of a text do not depend on where it begins. -/
theorem kinds_scanFrom (position other : Position) (text : List Char) :
    kinds (scanFrom position text) = kinds (scanFrom other text) := by
  induction size : text.length using Nat.strongRecOn generalizing position other text with
  | ind length shorter =>
      cases text with
      | nil => rw [scanFrom, scanFrom]; rfl
      | cons first rest =>
          have later (count : Nat) (here there : Position) :
              kinds (scanFrom here (rest.drop count)) =
                kinds (scanFrom there (rest.drop count)) := by
            refine shorter (rest.drop count).length ?_ here there _ rfl
            rw [← size, List.length_drop, List.length_cons]
            omega
          rw [kinds_scanFrom_cons, kinds_scanFrom_cons]
          cases step first rest with
          | error fault => rfl
          | ok found => simp only [later found.2 _ (other.afterAll (first :: rest.take found.2))]

/-- Texts that spell the same lexemes in front of the same rest. -/
theorem kinds_scan_of_spells {front other rest : List Char} {lexemes : List Lexeme}
    (spells : Spells front lexemes rest) (again : Spells other lexemes rest) :
    kinds (scan (String.ofList (other ++ rest))) =
      kinds (scan (String.ofList (front ++ rest))) := by
  rcases spells .start with ⟨tokens, equal, scanned⟩
  rcases again .start with ⟨others, same, rescanned⟩
  rw [scan, scan, String.toList_ofList, String.toList_ofList, scanned, rescanned, kinds_prepend,
    kinds_prepend, equal, same]
  rw [kinds_scanFrom]

theorem Occurs.noFeed {text front inside back : List Char} {lexeme : Lexeme}
    (occurs : Occurs text front inside back lexeme) :
    (inside ++ back).head? ∉ [none, some '\n'] := by
  rcases occurs.cut with ⟨first, more, rfl, cut⟩
  have noBlank : first ≠ '\n' := by
    rintro rfl
    cases cut
  simp [noBlank]

/-- Blanks and comments right in front of a lexeme or right behind it change no lexeme. -/
theorem kinds_scan_of_gap {text front inside back gap : List Char} {lexeme : Lexeme}
    (occurs : Occurs text front inside back lexeme) (isGap : Gap gap) :
    kinds (scan (String.ofList (front ++ gap ++ inside ++ back))) =
        kinds (scan (String.ofList text)) ∧
      kinds (scan (String.ofList (front ++ inside ++ gap ++ back))) =
        kinds (scan (String.ofList text)) := by
  have whole := occurs.reached.append_eq
  by_cases empty : gap = []
  · subst empty
    simp only [List.append_nil, List.append_assoc, whole, and_self]
  constructor
  · have stops := isGap.stops empty (inside ++ back)
    rcases occurs.reached.exists_spells (List.nil_append _).symm stops (fun _ => occurs.noFeed) with
      ⟨lexemes, before, again⟩
    rw [List.nil_append] at again
    have both := again.append (isGap.spells (inside ++ back))
    rw [List.append_nil] at both
    rw [← whole, List.append_assoc]
    exact kinds_scan_of_spells before both
  · have stops := isGap.stops empty back
    rcases occurs.cut with ⟨first, more, rfl, cut⟩
    rcases occurs.reached.exists_spells rfl stops (fun empty => absurd empty (List.cons_ne_nil _ _))
      with ⟨lexemes, before, again⟩
    have elsewhere := step_of_append stops cut (Nat.le_refl _)
    have inFront := before.append (spells_of_step cut)
    have both := (again.append (spells_of_step elsewhere)).append (isGap.spells back)
    rw [List.append_nil] at both
    rw [← whole, ← List.append_assoc]
    exact kinds_scan_of_spells inFront both

end DocShell.Token
