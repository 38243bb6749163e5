import DocShell.Proofs.Command.Step
import DocShell.Proofs.Fields

namespace DocShell

/-! # Forms of commands

A command is a search, one of the operations that are done with one call, or the
explanation of a search. Each form lists the names of its fields and the kinds of their
values. The first call of a chain leads to a form and every later one keeps to it. -/

namespace Value

/-- A number of any kind but the decimals. -/
def IsNumeric : Value → Prop
  | .number _ | .int _ | .long _ | .double _ => True
  | _ => False

def IsUpdate : Value → Prop
  | .document _ | .array _ => True
  | _ => False

def IsIndex : Value → Prop
  | .document _ | .string _ => True
  | _ => False

end Value

namespace Command

inductive SearchField : String × Value → Prop
  | filter (fields : Fields Value) : SearchField ("filter", .document fields)
  | projection (fields : Fields Value) : SearchField ("projection", .document fields)
  | sort (fields : Fields Value) : SearchField ("sort", .document fields)
  | limit {value : Value} (numeric : value.IsNumeric) : SearchField ("limit", value)
  | skip {value : Value} (numeric : value.IsNumeric) : SearchField ("skip", value)
  | hint {value : Value} (index : value.IsIndex) : SearchField ("hint", value)

structure SearchFields (fields : Fields Value) : Prop where
  each : ∀ field ∈ fields, SearchField field
  different : (Fields.names fields).Nodup
  limited : "limit" ∈ Fields.names fields

inductive Form
  | search
  | insertion
  | update
  | deletion
  | indexes
  | explanation
deriving DecidableEq, Repr

namespace Form

def optional (name : String) (value : Option Value) : Fields Value :=
  (value.map fun present => (name, present)).toList

inductive Describes (collection : String) : Form → Fields Value → Prop
  | search {others : Fields Value} (valid : SearchFields others) :
      Describes collection .search (("find", .string collection) :: others)
  | insertion {items : List Value} (documents : ∀ item ∈ items, ∃ fields, item = .document fields) :
      Describes collection .insertion
        [("insert", .string collection), ("documents", .array items)]
  | update (filter : Fields Value) {change : Value} (isUpdate : change.IsUpdate)
      (upsert : Option Value) (multi : Bool) :
      Describes collection .update [("update", .string collection), ("updates", .array [.document
        (("q", .document filter) :: ("u", change) :: optional "upsert" upsert ++
          [("multi", .bool multi)])])]
  | deletion (filter : Fields Value) {limit : Int} (bound : limit = 0 ∨ limit = 1) :
      Describes collection .deletion [("delete", .string collection), ("deletes", .array [.document
        [("q", .document filter), ("limit", .number (Double.ofInt limit))]])]
  | indexes : Describes collection .indexes [("listIndexes", .string collection)]
  | explanation {others : Fields Value} (valid : SearchFields others) (verbosity : Option String)
      (known : ∀ text ∈ verbosity, text ∈ Terminal.verbosities) :
      Describes collection .explanation
        (("explain", .document (("find", .string collection) :: others)) ::
          optional "verbosity" (verbosity.map .string))

def key : Form → String
  | .search => "find"
  | .insertion => "insert"
  | .update => "update"
  | .deletion => "delete"
  | .indexes => "listIndexes"
  | .explanation => "explain"

theorem key_of_describes {collection : String} {form : Form} {fields : Fields Value}
    (describes : form.Describes collection fields) :
    (Fields.names fields).head? = some form.key := by
  cases describes <;> rfl

/-- No command has two forms. -/
theorem eq_of_describes {collection other : String} {first second : Form} {fields : Fields Value}
    (left : first.Describes collection fields) (right : second.Describes other fields) :
    first = second := by
  have keys := (key_of_describes left).symm.trans (key_of_describes right)
  revert keys
  cases first <;> cases second <;> decide

end Form

/-! ## Searches -/

theorem SearchField.name_ne_find {field : String × Value} (valid : SearchField field) :
    field.1 ≠ "find" := by
  cases valid <;> simp only [ne_eq, String.reduceEq, not_false_eq_true]

theorem SearchFields.insert {fields : Fields Value} (valid : SearchFields fields) {name : String}
    {value : Value} (field : SearchField (name, value)) :
    SearchFields (Fields.insert name value fields) where
  each := by
    intro other member
    rcases Fields.mem_insert member with rfl | old
    · exact field
    · exact valid.each other old
  different := Fields.nodup_insert valid.different name value
  limited := by
    rw [Fields.names_insert]
    split
    · exact valid.limited
    · exact List.mem_append_left _ valid.limited

theorem describes_insert {collection : String} {fields : Fields Value}
    (isSearch : Form.search.Describes collection fields) {name : String} {value : Value}
    (field : SearchField (name, value)) :
    Form.search.Describes collection (Fields.insert name value fields) := by
  cases isSearch with
  | search valid =>
      rw [Fields.insert, if_neg field.name_ne_find.symm]
      exact .search (valid.insert field)

/-! ## The first call -/

section

open Operation

variable {collection who : String} {limit : Int} {arguments : CallArguments} {argument : Argument}
  {made : Fields Value}

theorem eq_document_of_mem_optionalField {field : String × Value} {name : String}
    {value : Option (Fields Value)} (member : field ∈ optionalField name value) :
    ∃ fields, field = (name, .document fields) := by
  cases value with
  | none => cases member
  | some fields => exact ⟨fields, List.mem_singleton.mp member⟩

theorem describes_findFields (found : findFields who collection limit arguments = .ok made) :
    Form.search.Describes collection made := by
  rcases bind_eq_ok.mp found with ⟨filter, _, more⟩
  rcases bind_pure_eq_ok.mp more with ⟨projection, _, rfl⟩
  refine .search ⟨?_, ?_, List.mem_map.mpr ⟨_, List.mem_append_right _ List.mem_cons_self, rfl⟩⟩
  · intro field member
    rcases List.mem_append.mp member with front | back
    · rcases eq_document_of_mem_optionalField front with ⟨fields, rfl⟩
      exact .filter fields
    rcases List.mem_cons.mp back with rfl | last
    · exact .limit trivial
    · rcases eq_document_of_mem_optionalField last with ⟨fields, rfl⟩
      exact .projection fields
  · cases filter <;> cases projection <;>
      simp [optionalField, Fields.names]

theorem describes_updateFields {multi : Bool}
    (found : updateFields who collection multi arguments = .ok made) :
    Form.update.Describes collection made := by
  rcases bind_eq_ok.mp found with ⟨filter, _, more⟩
  rcases bind_eq_ok.mp more with ⟨change, changed, rest⟩
  rcases bind_pure_eq_ok.mp rest with ⟨options, _, rfl⟩
  have isUpdate : change.IsUpdate := by
    unfold Operation.update at changed
    split at changed
    · cases changed
      trivial
    · cases changed
      trivial
    · cases changed
  cases given : options.bind (Fields.get? "upsert") with
  | none => exact .update filter isUpdate none multi
  | some value => exact .update filter isUpdate (some value) multi

theorem describes_deleteFields (bound : limit = 0 ∨ limit = 1)
    (found : deleteFields who collection limit arguments = .ok made) :
    Form.deletion.Describes collection made := by
  rcases bind_pure_eq_ok.mp found with ⟨filter, _, rfl⟩
  exact .deletion filter bound

theorem documents_of_insertMany {items : List Value}
    (found : documents argument who = .ok items) : ∀ item ∈ items, ∃ fields, item = .document fields := by
  unfold documents at found
  extract_lets refusal at found
  split at found
  · split at found
    · rename_i all
      cases found
      intro item member
      have present := List.all_eq_true.mp all item member
      cases item <;> first | exact ⟨_, rfl⟩ | cases present
    · cases found
  · cases found

end

end Command

namespace Operation

open Command

def form : Operation → Form
  | .find | .findOne => .search
  | .insertOne | .insertMany => .insertion
  | .updateOne | .updateMany => .update
  | .deleteOne | .deleteMany => .deletion
  | .getIndexes => .indexes

theorem describes_fields {operation : Operation} {collection : String} {findLimit : Int}
    {arguments : CallArguments} {made : Fields Value}
    (found : operation.fields collection findLimit arguments = .ok made) :
    operation.form.Describes collection made := by
  cases operation with
  | find => exact describes_findFields found
  | findOne => exact describes_findFields found
  | insertOne =>
      rcases bind_pure_eq_ok.mp found with ⟨fields, _, rfl⟩
      refine .insertion fun item member => ⟨fields, List.mem_singleton.mp member⟩
  | insertMany =>
      rcases bind_pure_eq_ok.mp found with ⟨items, listed, rfl⟩
      exact .insertion (documents_of_insertMany listed)
  | updateOne => exact describes_updateFields found
  | updateMany => exact describes_updateFields found
  | deleteOne => exact describes_deleteFields (.inr rfl) found
  | deleteMany => exact describes_deleteFields (.inl rfl) found
  | getIndexes =>
      cases found
      exact .indexes

end Operation

/-! ## Later calls -/

namespace Modifier

variable {modifier : Modifier}

def Takes : Modifier → Value → Prop
  | .skip, value | .limit, value => value.IsNumeric
  | .sort, value | .project, value => ∃ fields, value = .document fields
  | .hint, value => value.IsIndex

theorem isAbsent_of_takes {value : Value} (takes : modifier.Takes value) :
    value.isAbsent = false := by
  cases value with
  | absent =>
      have noDocument : ¬∃ fields, Value.absent = .document fields := by
        rintro ⟨_, ⟨⟩⟩
      cases modifier with
      | sort => exact absurd takes noDocument
      | project => exact absurd takes noDocument
      | _ => cases takes
  | _ => rfl

/-- A modifier writes the values that it takes as they are. -/
theorem value_eq_ok_iff {argument : Argument} {written : Value} :
    modifier.value argument = .ok written ↔
      modifier.Takes argument.value ∧ argument.value = written := by
  rcases argument with ⟨value, position, spelling⟩
  have document (who : String) :
      (do return .document (← Argument.document ⟨value, position, spelling⟩ who "specification")) =
          (.ok written : Except Failure Value) ↔
        (∃ fields, value = .document fields) ∧ value = written := by
    simp only [bind_pure_eq_ok, Argument.document_eq_ok_iff]
    constructor
    · rintro ⟨fields, rfl, rfl⟩
      exact ⟨⟨fields, rfl⟩, rfl⟩
    · rintro ⟨⟨fields, rfl⟩, rfl⟩
      exact ⟨fields, rfl, rfl⟩
  cases modifier with
  | sort => exact document "sort"
  | project => exact document "project"
  | _ => cases value <;> simp [Modifier.value, Takes, Value.IsNumeric, Value.IsIndex]

theorem searchField_of_takes {value : Value} (takes : modifier.Takes value) :
    Command.SearchField (modifier.field, value) := by
  cases modifier with
  | skip => exact .skip takes
  | limit => exact .limit takes
  | sort =>
      rcases takes with ⟨fields, rfl⟩
      exact .sort fields
  | project =>
      rcases takes with ⟨fields, rfl⟩
      exact .projection fields
  | hint => exact .hint takes

end Modifier

inductive Value.IsVerbosity : Value → Option String → Prop
  | absent : IsVerbosity .absent none
  | string {text : String} (known : text ∈ Terminal.verbosities) :
      IsVerbosity (.string text) (some text)

theorem Value.IsVerbosity.known {value : Value} {text : Option String}
    (asked : value.IsVerbosity text) : ∀ known ∈ text, known ∈ Terminal.verbosities := by
  intro known present
  cases asked with
  | absent => cases present
  | string listed =>
      cases present
      exact listed

theorem Terminal.verbosity_eq_ok_iff {argument : Argument} {made : Fields Value} :
    verbosity argument = .ok made ↔ ∃ text, argument.value.IsVerbosity text ∧
      Command.Form.optional "verbosity" (text.map .string) = made := by
  unfold verbosity
  extract_lets refusal
  split
  · rename_i value
    rw [value]
    constructor
    · rintro ⟨⟩
      exact ⟨none, .absent, rfl⟩
    · rintro ⟨_, ⟨⟩, rfl⟩
      rfl
  · rename_i text value
    rw [value]
    split
    · rename_i listed
      constructor
      · rintro ⟨⟩
        exact ⟨some text, .string listed, rfl⟩
      · rintro ⟨_, ⟨⟩, rfl⟩
        rfl
    · rename_i unlisted
      constructor
      · rintro ⟨⟩
      · rintro ⟨_, asked, _⟩
        cases asked with
        | string listed => exact absurd listed unlisted
  · rename_i present other
    refine iff_of_false (fun found => ?_) ?_
    · cases found
    · rintro ⟨_, asked, _⟩
      generalize same : argument.value = value at asked
      cases asked with
      | absent => exact present same
      | string known => exact other _ same

namespace Command

def Stage.form : Stage → Form
  | .cursor => .search
  | .done operation => operation.form
  | .ended .toArray => .search
  | .ended .explain => .explanation

def State.Formed (collection : String) (state : State) : Prop :=
  state.stage.form.Describes collection state.fields

variable {findLimit : Int} {collection label : String} {given : List Expr} {call : Position}
  {state after : State}

theorem formed_of_begin (started : begin findLimit collection label given call = .ok state) :
    state.Formed collection := by
  rcases begin_eq_ok started with ⟨operation, arguments, fields, _, _, made, rfl⟩
  have describes := Operation.describes_fields made
  cases operation <;> exact describes

theorem formed_of_effect {fields : Fields Value} {method : Method} {arguments : CallArguments}
    (isSearch : Form.search.Describes collection fields)
    (done : effect fields arguments method = .ok after) : after.Formed collection := by
  rcases method with modifier | terminal
  · rcases bind_pure_eq_ok.mp done with ⟨value, found, rfl⟩
    rcases Modifier.value_eq_ok_iff.mp found with ⟨takes, rfl⟩
    exact describes_insert isSearch (Modifier.searchField_of_takes takes)
  · cases terminal with
    | explain =>
        rcases bind_pure_eq_ok.mp done with ⟨verbosity, found, rfl⟩
        rcases Terminal.verbosity_eq_ok_iff.mp found with ⟨text, asked, rfl⟩
        rcases isSearch with ⟨valid⟩
        exact .explanation valid text asked.known
    | toArray =>
        cases done
        exact isSearch

/-- Every call on a command keeps it in the form of its stage. -/
theorem formed_of_next (formed : state.Formed collection)
    (stepped : next collection state label given call = .ok after) : after.Formed collection := by
  rcases next_eq_ok stepped with ⟨method, arguments, _, isCursor, _, done⟩
  rw [State.Formed, isCursor] at formed
  exact formed_of_effect formed done

end Command

end DocShell
