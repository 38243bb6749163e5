import DocShell.Proofs.Value.WrittenPattern

namespace DocShell

/-! # Patterns out of literals

Between its slashes a literal has the source of its pattern, character by character, and
behind them the options in any order. The pattern is written as the same literal again, with
its options in order, unless it holds a carriage return: the search for the closing slash
passes over that, but it is written as an escape. -/

namespace Pattern

/-- A source and options that make up one literal, with a slash before and a slash between
them. Without a source the two slashes would open a comment. -/
structure IsLiteral (source options : String) : Prop where
  nonempty : source ≠ ""
  noStar : source.toList.head? ≠ some '*'
  noFeed : '\n' ∉ source.toList
  noSlash : ¬BareSlash false false source.toList
  closed : isClosed source = true
  letters : ∀ letter ∈ options.toList, Text.isOptionPart letter = true

def literalText (source options : String) : String := "/" ++ source ++ "/" ++ options

theorem toList_literalText (source options : String) :
    (literalText source options).toList = '/' :: source.toList ++ '/' :: options.toList := by
  simp only [literalText, String.toList_append, List.append_assoc]
  rfl

/-- The source of a literal opens no comment. -/
theorem IsLiteral.starts {source options : String} (literal : IsLiteral source options) :
    ∃ first more, source.toList = first :: more ∧ first ≠ '*' ∧ first ≠ '/' := by
  cases text : source.toList with
  | nil => exact absurd (String.toList_eq_nil_iff.mp text) literal.nonempty
  | cons first more =>
      refine ⟨first, more, rfl, ?_, ?_⟩
      · rintro rfl
        exact literal.noStar (congrArg List.head? text)
      · rintro rfl
        exact literal.noSlash ⟨[], more, text, rfl⟩

/-- The options that are kept are those that were given, in order. -/
theorem sorted_of_new? {source options : String} {pattern : Pattern}
    (made : new? source options = some pattern) :
    pattern.source = source ∧ pattern.options.toList.Perm options.toList ∧
      pattern.options.toList.Pairwise (· < ·) := by
  simp only [new?] at made
  split at made
  · rename_i accepted
    rcases accepted with ⟨noStar, nodup, inside⟩
    have inside := all_optionLetters.mp inside
    have ordered : optionLetters.Pairwise (· < ·) := by decide
    cases made
    refine ⟨rfl, ?_, ?_⟩
    · rw [String.toList_ofList]
      refine (List.perm_ext_iff_of_nodup (List.Nodup.sublist List.filter_sublist (by decide))
        nodup).mpr fun letter => ?_
      rw [List.mem_filter, decide_eq_true_eq]
      exact ⟨And.right, fun member => ⟨inside letter member, member⟩⟩
    · rw [String.toList_ofList]
      exact ordered.sublist List.filter_sublist
  · cases made

end Pattern

namespace Token

open Pattern

/-! ## The extent of a literal -/

/-- The first slash that closes a literal is the one behind a closed source without a slash
that would close it earlier. -/
theorem slashFrom?_append_iff {escaped inClass : Bool} {source rest : List Char} :
    slashFrom? escaped inClass (source ++ '/' :: rest) = some source.length ↔
      '\n' ∉ source ∧ ¬BareSlash escaped inClass source ∧
        stateAfter escaped inClass source = (false, false) := by
  induction source generalizing escaped inClass with
  | nil =>
      have noSlash : ¬BareSlash escaped inClass [] := by
        rintro ⟨_ | _, _, equal, _⟩ <;> cases equal
      cases escaped <;> cases inClass <;> simp [slashFrom?, stateAfter, noSlash]
  | cons character source induction =>
      rw [List.cons_append, slashFrom?, bareSlash_cons, List.mem_cons, stateAfter]
      split
      · rename_i feed
        refine iff_of_false (fun found => ?_) fun kept => kept.1 (.inl feed.symm)
        cases found
      split
      · rename_i slash
        refine iff_of_false (fun found => ?_) fun kept => kept.2.1 (.inl slash)
        cases found
      · rename_i noFeed noSlash
        have shifted (found : Option Nat) :
            found.map (· + 1) = some (source.length + 1) ↔ found = some source.length := by
          cases found <;> simp
        rw [List.length_cons, shifted, induction]
        simp only [Ne.symm noFeed, noSlash, false_or]

section

variable {source options : String}

theorem isLiteral_of_slash (found : slash (source.toList ++ '/' :: options.toList) =
    .ok (.lexeme (.regex source options), (source.toList ++ '/' :: options.toList).length)) :
    IsLiteral source options := by
  unfold slash at found
  split at found
  · cases found
  · split at found <;> cases found
  · rename_i noSlash noStar
    split at found
    · rename_i count closing
      simp only [Except.ok.injEq, Prod.mk.injEq, Piece.lexeme.injEq, Lexeme.regex.injEq] at found
      rcases found with ⟨⟨sources, letters⟩, extent⟩
      have taken := congrArg String.toList letters
      rw [String.toList_ofList] at taken
      have size : count = source.toList.length := by
        rw [taken, List.length_append, List.length_cons] at extent
        omega
      rw [size, closingSlash?_eq] at closing
      rcases slashFrom?_append_iff.mp closing with ⟨noFeed, noBare, closed⟩
      refine ⟨?_, ?_, noFeed, noBare, decide_eq_true closed, ?_⟩
      · rintro rfl
        exact noSlash _ rfl
      · intro star
        rcases List.head?_eq_some_iff.mp star with ⟨more, equal⟩
        rw [equal] at noStar
        exact noStar _ rfl
      · exact List.all_eq_true.mp (taken ▸ List.all_takeWhile)
    · cases found

theorem slash_of_isLiteral (literal : IsLiteral source options) :
    slash (source.toList ++ '/' :: options.toList) =
      .ok (.lexeme (.regex source options), (source.toList ++ '/' :: options.toList).length) := by
  have closing : closingSlash? false (source.toList ++ '/' :: (options.toList ++ [])) =
      some source.toList.length := by
    rw [closingSlash?_eq]
    exact slashFrom?_append_iff.mpr
      ⟨literal.noFeed, literal.noSlash, of_decide_eq_true literal.closed⟩
  have extent : (source.toList ++ '/' :: options.toList).length =
      source.toList.length + 1 + options.toList.length := by
    rw [List.length_append, List.length_cons]
    omega
  have found := slash_literal literal.starts closing
    (Text.takeWhile_run literal.letters (Text.leaves_nil _))
  rwa [List.append_nil, String.ofList_toList, String.ofList_toList, ← extent] at found

/-- A typed literal is one lexeme of the text: just these sources and options make one. -/
theorem step_literal_iff : step '/' (source.toList ++ '/' :: options.toList) =
      .ok (.lexeme (.regex source options), (source.toList ++ '/' :: options.toList).length) ↔
    IsLiteral source options :=
  ⟨isLiteral_of_slash, slash_of_isLiteral⟩

end

theorem scan_literal {source options : String} (literal : IsLiteral source options) :
    ∃ tokens finish, scan (literalText source options) = .ok (tokens, finish) ∧
      tokens.map (·.lexeme) = [.regex source options] := by
  have found := step_literal_iff.mpr literal
  have whole : step '/' ((source.toList ++ '/' :: options.toList) ++ []) =
      .ok (.lexeme (.regex source options), (source.toList ++ '/' :: options.toList).length) := by
    rw [List.append_nil]
    exact found
  have spelled := (spells_of_step whole).scan
  rwa [← List.cons_append, ← toList_literalText, String.ofList_toList] at spelled

end Token

namespace Value

open Pattern Token Reader

/-! ## Literals read and written again -/

/-- A literal denotes the pattern that is made of its two parts, if there is one. -/
theorem ofShell_literalText_eq_iff {source options : String} (literal : IsLiteral source options)
    {limit : Nat} {pattern : Pattern} :
    ofShell limit (literalText source options) = .ok (.regex pattern) ↔
      1 ≤ limit ∧ new? source options = some pattern := by
  have readable : Phrase.Readable ⟨[.regex source options], 1, fun expr =>
      ∃ position, expr = .literal position (.regex source options)⟩ :=
    readable_token (.literal · (.regex source options)) (by simp [stops]) rfl
      fun _ _ _ _ token rest equal => by rw [outcome_primary, equal]
  rcases scan_literal literal with ⟨tokens, finish, scanned, lexemes⟩
  rw [ofShell_of_tokens scanned]
  rcases ofTokens_of_readable readable lexemes limit finish with
    ⟨room, expr, ⟨position, rfl⟩, equal⟩ | ⟨short, position, equal⟩
  · rw [equal, and_iff_right room]
    change (Expr.literal position (.regex source options)).evaluate = _ ↔ _
    rw [Expr.evaluate, Expr.meaning, Expr.literalValue]
    cases new? source options with
    | none => constructor <;> rintro ⟨⟩
    | some made =>
        constructor
        · rintro ⟨⟩
          rfl
        · rintro ⟨⟩
          rfl
  · rw [equal]
    refine iff_of_false (fun found => ?_) fun accepted => short accepted.1
    cases found

theorem shellText_regex (pattern : Pattern) (indent : Nat) :
    ((regex pattern).shellText indent).toList =
      '/' :: writtenSource pattern.source ++ '/' :: pattern.options.toList := by
  rw [shellText, String.toList_ofList, written]

/-- The source of a literal can stand between slashes as it is, unless it holds a carriage
return. -/
theorem verbatim_iff_of_literal {source options : String} (literal : IsLiteral source options) :
    Verbatim source ↔ '\r' ∉ source.toList :=
  ⟨Verbatim.noReturn, fun noReturn =>
    ⟨literal.nonempty, literal.noFeed, noReturn, literal.noSlash⟩⟩

theorem shellText_eq_literalText_iff (pattern : Pattern) (indent : Nat) :
    (regex pattern).shellText indent = literalText pattern.source pattern.options ↔
      Verbatim pattern.source := by
  rw [← rewritten_eq_self_iff, ← String.toList_inj, shellText_regex, toList_literalText,
    List.cons_append, List.cons_append, List.cons.injEq, and_iff_right rfl,
    List.append_left_inj, rewritten]
  rcases pattern with ⟨source, options⟩
  rw [Pattern.mk.injEq, and_iff_left rfl, ← String.toList_inj, String.toList_ofList]

/-- A literal that is read has its source verbatim and its options in order. It is written as
it was typed, and read back as the same pattern, just if there is no carriage return in it. -/
theorem ofShell_literalText {source options : String} {limit : Nat} {pattern : Pattern}
    (literal : IsLiteral source options)
    (found : ofShell limit (literalText source options) = .ok (.regex pattern)) (indent : Nat) :
    pattern.source = source ∧
      pattern.options.toList.Perm options.toList ∧ pattern.options.toList.Pairwise (· < ·) ∧
      ((regex pattern).shellText indent = literalText source pattern.options ↔
        '\r' ∉ source.toList) ∧
      (ofShell limit ((regex pattern).shellText indent) = .ok (.regex pattern) ↔
        '\r' ∉ source.toList) := by
  rcases (ofShell_literalText_eq_iff literal).mp found with ⟨room, made⟩
  rcases sorted_of_new? made with ⟨rfl, permuted, ordered⟩
  have sound : (regex pattern).Sound := (sound_of_new? made).1
  have closed : (regex pattern).Closed := literal.closed
  have again : ofShell limit ((regex pattern).shellText indent) = .ok (.regex pattern.rewritten) :=
    ofShell_shellText_of_le sound closed indent room
  refine ⟨rfl, permuted, ordered, ?_, ?_⟩
  · rw [shellText_eq_literalText_iff, verbatim_iff_of_literal literal]
  · rw [again, Except.ok.injEq, Value.regex.injEq, rewritten_eq_self_iff,
      verbatim_iff_of_literal literal]

theorem ofShell_literalText_slashes :
    IsLiteral "[/]\\/" "yi" ∧
      ofShell defaultLimit (literalText "[/]\\/" "yi") = .ok (.regex ⟨"[/]\\/", "iy"⟩) ∧
        (regex ⟨"[/]\\/", "iy"⟩).shellText 2 = literalText "[/]\\/" "iy" := by
  have plain := escapedSource_eq_self_iff.mp
    (show escapedSource false false "[/]\\/".toList = "[/]\\/".toList by decide)
  have literal : IsLiteral "[/]\\/" "yi" :=
    ⟨by decide, by decide, plain.1, plain.2.2, by decide, List.all_eq_true.mp (by decide)⟩
  have read : ofShell defaultLimit (literalText "[/]\\/" "yi") =
      .ok (.regex ⟨"[/]\\/", "iy"⟩) :=
    (ofShell_literalText_eq_iff literal).mpr ⟨by decide, by decide⟩
  exact ⟨literal, read, (ofShell_literalText literal read 2).2.2.2.1.mpr plain.2.1⟩

/-- A carriage return is written as two other characters, which are read as those two. -/
theorem not_ofShell_literalText_again :
    ¬∀ (source options : String) (pattern : Pattern), IsLiteral source options →
      ofShell defaultLimit (literalText source options) = .ok (.regex pattern) →
        (regex pattern).shellText 0 = literalText source pattern.options ∧
          ofShell defaultLimit ((regex pattern).shellText 0) = .ok (.regex pattern) := by
  intro again
  have noSlash : ¬BareSlash false false "\r".toList := by
    rintro ⟨front, back, equal, _⟩
    have member : '/' ∈ "\r".toList := equal ▸ List.mem_append_right _ List.mem_cons_self
    exact absurd member (by decide)
  have literal : IsLiteral "\r" "" :=
    ⟨by decide, by decide, by decide, noSlash, by decide, nofun⟩
  have read : ofShell defaultLimit (literalText "\r" "") = .ok (.regex ⟨"\r", ""⟩) :=
    (ofShell_literalText_eq_iff literal).mpr ⟨by decide, by decide⟩
  have kept := (again "\r" "" ⟨"\r", ""⟩ literal read).1
  rw [shellText_eq_literalText_iff] at kept
  exact kept.noReturn (by decide)

end Value

end DocShell
