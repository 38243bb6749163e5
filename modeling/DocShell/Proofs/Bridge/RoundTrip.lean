import DocShell.Bridge.Document
import DocShell.Proofs.Bridge.Import
import DocShell.Proofs.Json.RoundTrip
import DocShell.Proofs.Value.RoundTrip

namespace DocShell.Value

/-! # From JSON to shell text and back

The limit on the depth of JSON text keeps its shell text within the limit on the depth
of shell text: the deepest JSON, around a negative number, needs just all its levels. -/

theorem exists_json_of_ofJsonText {text : String} {value : Value}
    (read : ofJsonText text = .ok value) :
    ∃ json, json.depth ≤ Json.depthLimit ∧ ofJson json = .ok value := by
  unfold ofJsonText at read
  split at read
  · exact ⟨_, Json.depth_le_of_parse? ‹_›, read⟩
  · cases read

theorem need_le_of_ofJsonText {text : String} {value : Value}
    (read : ofJsonText text = .ok value) : value.need ≤ defaultLimit := by
  rcases exists_json_of_ofJsonText read with ⟨json, depth, found⟩
  have levels := need_le_of_ofJson found
  rw [Json.depthLimit] at depth
  rw [defaultLimit]
  omega

theorem sound_of_ofJsonText {text : String} {value : Value}
    (read : ofJsonText text = .ok value) : value.Sound := by
  rcases exists_json_of_ofJsonText read with ⟨json, _, found⟩
  exact sound_of_ofJson found

/-- JSON text that is accepted has a shell text, which is read back under the default
limit, for values with closed patterns. No part of such a value is absent, so none
is dropped. -/
theorem ofShell_shellOfJsonText {text : String} {value : Value}
    (read : ofJsonText text = .ok value) (closed : value.Closed) (indent : Nat) :
    value.Present ∧ ∃ shell, shellOfJsonText indent text = .ok shell ∧
      ofShell defaultLimit shell = .ok value.normal := by
  rcases exists_json_of_ofJsonText read with ⟨json, _, found⟩
  refine ⟨present_of_ofJson found, value.shellText indent, ?_, ?_⟩
  · rw [shellOfJsonText, read]
    rfl
  · exact ofShell_shellText_of_le (sound_of_ofJson found) closed indent (need_le_of_ofJsonText read)

/-! ## A pattern beside a text -/

open Json in
theorem readsAs_pattern (room : Nat) (pattern : Pattern) :
    ReadsAs (room + 2) ((toJson (.regex pattern)).write .compact 0) (toJson (.regex pattern)) := by
  have names : ["pattern", "options"].Nodup := by decide
  have inner := readsAs_object
    (.cons "pattern" (readsAs_string room pattern.source)
      (.cons "options" (readsAs_string room pattern.options) .nil)) names
  exact readsAs_object (.cons "$regularExpression" inner .nil)
    (List.nodup_cons.mpr ⟨List.not_mem_nil, List.nodup_nil⟩)

open Json in
theorem parse?_patternBeside (pattern : Pattern) (text : String) :
    parse? (array [.regex pattern, .string text]).jsonText =
      some (toJson (array [.regex pattern, .string text])) :=
  parse?_of_readsAs (readsAs_array
    (.cons (readsAs_pattern 124 pattern) (.cons (readsAs_string 126 text) .nil)))

theorem ofJson_toJson_pattern {pattern : Pattern} (sound : pattern.Sound) :
    ofJson (toJson (.regex pattern)) = .ok (.regex pattern) := by
  have accepted : Pattern.new? pattern.source pattern.options = some pattern := sound
  have members : patternOf (.object [("pattern", .string pattern.source),
      ("options", .string pattern.options)]) = .ok (.regex pattern) := by
    refine bind_eq_ok.mpr ⟨pattern.source, rfl, bind_eq_ok.mpr ⟨pattern.options, rfl, ?_⟩⟩
    simp only [accepted]
  have wrapper : ofWrapper? [("$regularExpression", .object [("pattern", .string pattern.source),
      ("options", .string pattern.options)])] = .ok (some (.regex pattern)) :=
    bind_pure_eq_ok.mpr ⟨_, members, rfl⟩
  rw [toJson, Json.wrapped, ofJson, wrapper]
  rfl

theorem ofJsonText_patternBeside {pattern : Pattern} (sound : pattern.Sound) (text : String) :
    ofJsonText (array [.regex pattern, .string text]).jsonText =
      .ok (array [.regex pattern, .string text]) := by
  rw [ofJsonText, parse?_patternBeside]
  change ofJson (.array [toJson (.regex pattern), .string text]) = _
  rw [ofJson, ofItems, ofJson_toJson_pattern sound]
  rfl

theorem ofShell_shellOfJsonText_slashClass :
    ∃ shell, shellOfJsonText 2 (array [.regex ⟨"[/]", "i"⟩, .string "]/"]).jsonText = .ok shell ∧
      ofShell defaultLimit shell = .ok (.array [.regex ⟨"[/]", "i"⟩, .string "]/"]) := by
  have sound : Pattern.Sound ⟨"[/]", "i"⟩ := rfl
  have closed : (array [.regex ⟨"[/]", "i"⟩, .string "]/"]).Closed := ⟨trivial, rfl, trivial, trivial⟩
  exact (ofShell_shellOfJsonText (ofJsonText_patternBeside sound "]/") closed 2).2

end DocShell.Value
