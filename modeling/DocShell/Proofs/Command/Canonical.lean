import DocShell.Proofs.Command.Containment
import DocShell.Proofs.Expr.Parts
import DocShell.Proofs.Value.Canonical

namespace DocShell

/-! # Canonical data in commands

A command is put together from the values of its arguments, from names, and from numbers
that are known beforehand. What may be relied on in a value that is read from a text may
be relied on in all of a command. -/

namespace Expr

def YieldsThroughout (expr : Expr) : Prop :=
  ∀ part, part.Occurs expr → ∃ levels, Yields levels part

theorem YieldsThroughout.of_children {levels : Nat} {whole : Expr} (here : Yields levels whole)
    (inside : ∀ child ∈ whole.children, child.YieldsThroughout) : whole.YieldsThroughout := by
  intro part occurs
  cases occurs with
  | here => exact ⟨levels, here⟩
  | inside member inner => exact inside _ member part inner

theorem Partly.throughout {room left : Nat} {expr : Expr} (partly : Partly room left expr)
    (inside : ∀ child ∈ expr.children, child.YieldsThroughout) :
    Partly room left expr ∧ expr.YieldsThroughout :=
  ⟨partly, .of_children partly.2 inside⟩

theorem throughout_of_childless {room left : Nat} {expr : Expr} (partly : Partly room left expr)
    (childless : expr.children = []) : Partly room left expr ∧ expr.YieldsThroughout := by
  refine partly.throughout fun child member => ?_
  rw [childless] at member
  cases member

/-- All parts of what is read yield, not only the whole. -/
theorem invariant_yieldsThroughout : Reader.Invariant Lexeme.Sound
    (fun room expr => Whole room expr ∧ expr.YieldsThroughout)
    (fun room left expr => Partly room left expr ∧ expr.YieldsThroughout) where
  literal room position lexeme literal sound found :=
    throughout_of_childless (invariant_yields.literal _ _ _ _ sound found) rfl
  name room position label := throughout_of_childless (invariant_yields.name _ _ _) rfl
  group room expr whole := ⟨invariant_yields.group _ _ whole.1, whole.2⟩
  array room position items each := by
    refine Partly.throughout (invariant_yields.array _ _ _ fun item member expr equal =>
      (each item member expr equal).1) fun child member => ?_
    rcases List.mem_filterMap.mp member with ⟨item, belongs, present⟩
    exact (each item belongs child present).2
  object room position fields each := by
    refine Partly.throughout (invariant_yields.object _ _ _ fun field member =>
      (each field member).imp_right And.left) fun child member => ?_
    rcases List.mem_map.mp member with ⟨field, belongs, rfl⟩
    rcases each field belongs with ⟨position, label, isName⟩ | ⟨_, throughout⟩
    · rw [isName]
      exact (throughout_of_childless (invariant_yields.name 0 position label) rfl).2
    · exact throughout
  signed room position sign operand whole := by
    have outer := invariant_yields.signed _ position sign _ whole.1
    exact ⟨outer, .of_children outer.2 (List.forall_mem_singleton.mpr whole.2)⟩
  member room left position owner label start :=
    Partly.throughout (invariant_yields.member _ _ _ _ _ start.1)
      (List.forall_mem_singleton.mpr start.2)
  index room left position owner key start whole :=
    Partly.throughout (invariant_yields.index _ _ _ _ _ start.1 whole.1)
      (List.forall_mem_cons.mpr ⟨start.2, List.forall_mem_singleton.mpr whole.2⟩)
  call room left position owner given start each :=
    Partly.throughout (invariant_yields.call _ _ _ _ _ start.1 fun argument member =>
      (each argument member).1)
      (List.forall_mem_cons.mpr ⟨start.2, fun argument member => (each argument member).2⟩)
  new room left position callee given start each :=
    Partly.throughout (invariant_yields.new _ _ _ _ _ start.1 fun argument member =>
      (each argument member).1)
      (List.forall_mem_cons.mpr ⟨start.2, fun argument member => (each argument member).2⟩)
  expression room left expr start := ⟨invariant_yields.expression _ _ _ start.1, start.2⟩

theorem yieldsThroughout_of_parse {limit : Nat} {text : String} {expr : Expr}
    (read : parse limit text = .ok (some expr)) : expr.YieldsThroughout := by
  rw [parse] at read
  split at read
  · rename_i tokens finish scanned
    exact (Reader.whole_of_ofTokens invariant_yieldsThroughout read
      (Token.sound_of_scan scanned)).2
  · cases read

end Expr

/-! ## Arguments -/

namespace Argument

def Canonical (argument : Argument) : Prop :=
  argument.value.isAbsent = false → argument.value.Canonical

variable {argument : Argument} {who what : String}

theorem canonical_of_document {fields : Fields Value} (canonical : argument.Canonical)
    (found : argument.document who what = .ok fields) : (Value.document fields).Canonical := by
  have equal := document_eq_ok_iff.mp found
  rw [← equal]
  exact canonical (equal ▸ rfl)

theorem canonical_of_optionalDocument {given : Option (Fields Value)}
    (canonical : argument.Canonical) (found : argument.optionalDocument who what = .ok given) :
    ∀ fields ∈ given, (Value.document fields).Canonical := by
  intro fields member
  cases member
  have equal := (optionalDocument_eq_ok_iff.mp found).eq_document
  rw [← equal]
  exact canonical (equal ▸ rfl)

end Argument

namespace CallArguments

def Canonical (arguments : CallArguments) : Prop :=
  ∀ argument ∈ arguments.given, argument.Canonical

theorem canonical_of_evaluateAll {given : List Expr} {arguments : List Argument}
    (yields : ∀ expr ∈ given, ∃ levels, expr.Yields levels)
    (found : evaluateAll given = .ok arguments) :
    ∀ argument ∈ arguments, argument.Canonical := by
  induction given generalizing arguments with
  | nil =>
      cases found
      intro argument member
      cases member
  | cons expr rest induction =>
      rcases bind_eq_ok.mp found with ⟨value, evaluated, more⟩
      rcases bind_pure_eq_ok.mp more with ⟨others, later, rfl⟩
      intro argument member
      rcases List.mem_cons.mp member with rfl | inner
      · rcases bind_pure_eq_ok.mp evaluated with ⟨meaning, denoted, rfl⟩
        rcases yields expr List.mem_cons_self with ⟨levels, expected⟩
        intro present
        exact Value.canonical_of_decoded
          (Value.decoded_plain (expected meaning denoted).1 present)
      · exact induction (fun other belongs => yields other (List.mem_cons_of_mem _ belongs)) later
          argument inner

theorem canonical_of_evaluate {who : String} {limit : Nat} {given : List Expr} {call : Position}
    {arguments : CallArguments} (yields : ∀ expr ∈ given, ∃ levels, expr.Yields levels)
    (found : evaluate who limit given call = .ok arguments) : arguments.Canonical := by
  unfold evaluate at found
  split at found
  · cases found
  · rcases bind_pure_eq_ok.mp found with ⟨all, evaluated, rfl⟩
    exact canonical_of_evaluateAll yields evaluated

theorem Canonical.nth {arguments : CallArguments} (canonical : arguments.Canonical)
    (place : Nat) : (arguments.nth place).Canonical := by
  rw [CallArguments.nth]
  cases found : arguments.given[place]? with
  | none =>
      intro present
      cases present
  | some argument => exact canonical argument (List.mem_of_getElem? found)

end CallArguments

/-! ## The first call -/

namespace Command.Form

/-- No name comes twice among the fields of a command. -/
theorem nodup_of_describes {collection : String} {form : Form} {fields : Fields Value}
    (describes : form.Describes collection fields) : (Fields.names fields).Nodup := by
  cases describes with
  | search valid =>
      refine List.nodup_cons.mpr ⟨fun member => ?_, valid.different⟩
      rcases List.mem_map.mp member with ⟨field, belongs, equal⟩
      exact (valid.each field belongs).name_ne_find equal
  | explanation valid verbosity known => cases verbosity <;> simp [Fields.names, optional]
  | _ => simp [Fields.names]

end Command.Form

namespace Operation

open Value

variable {arguments : CallArguments} {argument : Argument} {collection who : String}
  {made : Fields Value}

theorem canonical_number {number : Int} (small : number.natAbs < 2 ^ 64) :
    (Value.number (Double.ofInt number)).Canonical :=
  Double.isFinite_ofInt small

theorem canonical_of_mem_pair {first second : String × Value} (here : first.2.Canonical)
    (there : second.2.Canonical) : ∀ field ∈ [first, second], field.2.Canonical := by
  intro field member
  rcases List.mem_cons.mp member with rfl | last
  · exact here
  · exact List.mem_singleton.mp last ▸ there

theorem canonical_single {value : Value} (canonical : value.Canonical) :
    (array [value]).Canonical :=
  canonical_array.mpr fun _ member => List.mem_singleton.mp member ▸ canonical

theorem canonical_of_documents {items : List Value} (canonical : argument.Canonical)
    (found : documents argument who = .ok items) : (Value.array items).Canonical := by
  unfold documents at found
  extract_lets refusal at found
  split at found
  · rename_i equal
    split at found
    · cases found
      rw [← equal]
      exact canonical (equal ▸ rfl)
    · cases found
  · cases found

theorem canonical_of_update {change : Value} (canonical : argument.Canonical)
    (found : update argument who = .ok change) : change.Canonical := by
  unfold update at found
  split at found
  · rename_i equal
    cases found
    rw [← equal]
    exact canonical (equal ▸ rfl)
  · rename_i equal
    cases found
    rw [← equal]
    exact canonical (equal ▸ rfl)
  · cases found

theorem canonical_of_mem_optionalField {name : String} {given : Option (Fields Value)}
    (canonical : ∀ fields ∈ given, (Value.document fields).Canonical) :
    ∀ field ∈ optionalField name given, field.2.Canonical := by
  intro field member
  cases given with
  | none => cases member
  | some fields =>
      rw [List.mem_singleton.mp member]
      exact canonical fields rfl

theorem canonical_of_findFields {limit : Int} (small : limit.natAbs < 2 ^ 64)
    (canonical : arguments.Canonical)
    (found : findFields who collection limit arguments = .ok made) :
    ∀ field ∈ made, field.2.Canonical := by
  rcases bind_eq_ok.mp found with ⟨filter, filtered, more⟩
  rcases bind_pure_eq_ok.mp more with ⟨projection, projected, rfl⟩
  intro field member
  rcases List.mem_append.mp member with front | back
  · rcases List.mem_cons.mp front with rfl | inner
    · trivial
    · exact canonical_of_mem_optionalField
        (Argument.canonical_of_optionalDocument (canonical.nth 0) filtered) field inner
  · rcases List.mem_cons.mp back with rfl | inner
    · exact canonical_number small
    · exact canonical_of_mem_optionalField
        (Argument.canonical_of_optionalDocument (canonical.nth 1) projected) field inner

theorem canonical_of_updateFields {multi : Bool} (canonical : arguments.Canonical)
    (found : updateFields who collection multi arguments = .ok made) :
    ∀ field ∈ made, field.2.Canonical := by
  rcases bind_eq_ok.mp found with ⟨filter, filtered, more⟩
  rcases bind_eq_ok.mp more with ⟨change, changed, rest⟩
  rcases bind_pure_eq_ok.mp rest with ⟨options, opened, rfl⟩
  have asked : ∀ value ∈ options.bind (Fields.get? "upsert"), value.Canonical := by
    intro value present
    rcases Option.bind_eq_some_iff.mp present with ⟨fields, given, found⟩
    have inside := Argument.canonical_of_optionalDocument (canonical.nth 2) opened fields given
    exact (canonical_document.mp inside).2 _ (Fields.mem_of_get? found)
  refine canonical_of_mem_pair trivial (canonical_single (canonical_document.mpr ⟨?_, ?_⟩))
  · cases options.bind (Fields.get? "upsert") <;> simp [Fields.names]
  · intro field member
    rcases List.mem_cons.mp member with rfl | changes
    · exact Argument.canonical_of_document (canonical.nth 0) filtered
    rcases List.mem_cons.mp changes with rfl | others
    · exact canonical_of_update (canonical.nth 1) changed
    rcases List.mem_append.mp others with upsert | last
    · cases given : options.bind (Fields.get? "upsert") with
      | none =>
          rw [given] at upsert
          cases upsert
      | some value =>
          rw [given] at upsert
          exact List.mem_singleton.mp upsert ▸ asked value given
    · exact List.mem_singleton.mp last ▸ trivial

theorem canonical_of_deleteFields {limit : Int} (small : limit.natAbs < 2 ^ 64)
    (canonical : arguments.Canonical)
    (found : deleteFields who collection limit arguments = .ok made) :
    ∀ field ∈ made, field.2.Canonical := by
  rcases bind_pure_eq_ok.mp found with ⟨filter, filtered, rfl⟩
  refine canonical_of_mem_pair trivial (canonical_single (canonical_document.mpr ⟨?_, ?_⟩))
  · simp [Fields.names]
  · exact canonical_of_mem_pair (Argument.canonical_of_document (canonical.nth 0) filtered)
      (canonical_number small)

/-- What an operation makes of canonical arguments is canonical. -/
theorem canonical_of_fields {operation : Operation} {findLimit : Int}
    (small : findLimit.natAbs < 2 ^ 64) (canonical : arguments.Canonical)
    (found : operation.fields collection findLimit arguments = .ok made) :
    (Value.document made).Canonical := by
  refine canonical_document.mpr ⟨Command.Form.nodup_of_describes (describes_fields found), ?_⟩
  cases operation with
  | find => exact canonical_of_findFields small canonical found
  | findOne => exact canonical_of_findFields (by decide) canonical found
  | insertOne =>
      rcases bind_pure_eq_ok.mp found with ⟨fields, opened, rfl⟩
      exact canonical_of_mem_pair trivial
        (canonical_single (Argument.canonical_of_document (canonical.nth 0) opened))
  | insertMany =>
      rcases bind_pure_eq_ok.mp found with ⟨items, listed, rfl⟩
      exact canonical_of_mem_pair trivial (canonical_of_documents (canonical.nth 0) listed)
  | updateOne => exact canonical_of_updateFields canonical found
  | updateMany => exact canonical_of_updateFields canonical found
  | deleteOne => exact canonical_of_deleteFields (by decide) canonical found
  | deleteMany => exact canonical_of_deleteFields (by decide) canonical found
  | getIndexes =>
      cases found
      intro field member
      exact List.mem_singleton.mp member ▸ trivial

end Operation

/-! ## Later calls -/

theorem Modifier.canonical_of_value {modifier : Modifier} {argument : Argument} {written : Value}
    (canonical : argument.Canonical) (found : modifier.value argument = .ok written) :
    written.Canonical := by
  rcases value_eq_ok_iff.mp found with ⟨takes, rfl⟩
  exact canonical (isAbsent_of_takes takes)

namespace Command

open Value

variable {collection label : String} {given : List Expr} {call : Position} {state after : State}

theorem canonical_of_effect {fields : Fields Value} {method : Method} {arguments : CallArguments}
    (start : (document fields).Canonical) (canonical : arguments.Canonical)
    (done : effect fields arguments method = .ok after) :
    (document after.fields).Canonical := by
  rcases method with modifier | terminal
  · rcases bind_pure_eq_ok.mp done with ⟨value, found, rfl⟩
    rcases canonical_document.mp start with ⟨nodup, inside⟩
    refine canonical_document.mpr ⟨Fields.nodup_insert nodup _ value, fun field member => ?_⟩
    rcases Fields.mem_insert member with rfl | old
    · exact Modifier.canonical_of_value (canonical.nth 0) found
    · exact inside field old
  · cases terminal with
    | explain =>
        rcases bind_pure_eq_ok.mp done with ⟨verbosity, found, rfl⟩
        rcases Terminal.verbosity_eq_ok_iff.mp found with ⟨text, _, rfl⟩
        refine canonical_document.mpr ⟨?_, fun field member => ?_⟩
        · cases text <;> simp [Fields.names, Form.optional]
        · rcases List.mem_cons.mp member with rfl | asked
          · exact start
          · cases text with
            | none => cases asked
            | some text => exact List.mem_singleton.mp asked ▸ trivial
    | toArray =>
        cases done
        exact start

/-- Every call on a command keeps it canonical. -/
theorem canonical_of_next (start : (document state.fields).Canonical)
    (yields : ∀ expr ∈ given, ∃ levels, expr.Yields levels)
    (stepped : next collection state label given call = .ok after) :
    (document after.fields).Canonical := by
  rcases next_eq_ok stepped with ⟨method, arguments, _, _, evaluated, done⟩
  exact canonical_of_effect start (CallArguments.canonical_of_evaluate yields evaluated) done

theorem canonical_of_finish {links : List Link} {made : Fields Value}
    (start : (document state.fields).Canonical)
    (yields : ∀ expr ∈ links.flatMap Link.given, ∃ levels, expr.Yields levels)
    (finished : finish collection state links = .ok made) : (document made).Canonical := by
  fun_induction finish collection state links with
  | case1 state =>
      cases finished
      exact start
  | case2 => cases finished
  | case3 state label given call rest induction =>
      rcases bind_eq_ok.mp finished with ⟨after, stepped, more⟩
      have all : ∀ expr ∈ given ++ rest.flatMap Link.given, ∃ levels, expr.Yields levels := yields
      have now := fun expr member => all expr (List.mem_append_left _ member)
      exact induction after (canonical_of_next start now stepped)
        (fun expr member => all expr (List.mem_append_right _ member)) more
  | case4 => cases finished

theorem canonical_of_ofLinks {findLimit : Int} {links : List Link} {made : Fields Value}
    (small : findLimit.natAbs < 2 ^ 64)
    (yields : ∀ expr ∈ links.flatMap Link.given, ∃ levels, expr.Yields levels)
    (found : ofLinks findLimit links = .ok made) : (document made).Canonical := by
  rcases ofLinks_eq_ok found with
    ⟨collection, label, given, call, rest, state, _, rfl, started, finished⟩
  rw [List.flatMap_append, flatMap_given_name] at yields
  rcases begin_eq_ok started with ⟨operation, arguments, fields, _, evaluated, made, rfl⟩
  have all : ∀ expr ∈ given ++ rest.flatMap Link.given, ∃ levels, expr.Yields levels := yields
  have now := fun expr member => all expr (List.mem_append_left _ member)
  have first := Operation.canonical_of_fields small
    (CallArguments.canonical_of_evaluate now evaluated) made
  exact canonical_of_finish first
    (fun expr member => all expr (List.mem_append_right _ member)) finished

end Command

/-! ## Whole texts -/

theorem Value.canonical_of_ofShell {limit : Nat} {text : String} {value : Value}
    (found : ofShell limit text = .ok value) : value = .absent ∨ value.Canonical :=
  (decoded_of_ofShell found).imp_right fun decoded => canonical_of_decoded decoded.1

theorem Command.canonical_of_ofShell {limit : Nat} {findLimit : Int} {text : String}
    {fields : Fields Value} (small : findLimit.natAbs < 2 ^ 64)
    (found : ofShell limit findLimit text = .ok fields) : (Value.document fields).Canonical := by
  rcases bind_eq_ok.mp found with ⟨parsed, read, more⟩
  cases parsed with
  | none => cases more
  | some expr =>
      rcases bind_eq_ok.mp more with ⟨links, linked, made⟩
      rcases Link.ofExpr_eq_ok linked with ⟨_, _, arguments⟩
      refine canonical_of_ofLinks small (fun part member => ?_) made
      rw [arguments, List.flatMap_nil, List.append_nil] at member
      exact Expr.yieldsThroughout_of_parse read part (Expr.occurs_of_mem_arguments member)

/-- What is read is canonical, be it a value or a command with an integer of 64 bits as the
limit of its searches. To make data plain once is enough, and changes nothing about its JSON
unless it holds numbers that are not finite. -/
theorem canonical_of_read (limit : Nat) (findLimit : Int64) (text : String) :
    (∀ value, Value.ofShell limit text = .ok value → value = .absent ∨ value.Canonical) ∧
      (∀ fields, Command.ofShell limit findLimit.toInt text = .ok fields →
        (Value.document fields).Canonical) ∧
      (∀ value : Value, value.plain.plain = value.plain) ∧
      ∀ value : Value, value.NumbersFinite → value.plain.toJson = value.toJson := by
  have small : findLimit.toInt.natAbs < 2 ^ 64 := by
    have lower := findLimit.le_toInt
    have upper := findLimit.toInt_lt
    omega
  exact ⟨fun _ => Value.canonical_of_ofShell, fun _ => Command.canonical_of_ofShell small,
    Value.plain_plain, fun _ => Value.toJson_plain⟩

theorem Value.ofShell_reference :
    ofShell 9 "[{a: NaN, b: Date, a: /x/gd}, Date]" =
      .ok (array [document [("a", regex ⟨"x", "dg"⟩)], null]) := by cbv

theorem Command.ofShell_reference :
    ofShell 9 3 "db.c.insertOne({a: [Date, NaN], b: Date})" =
      .ok [("insert", .string "c"),
        ("documents", .array [.document [("a", .array [.null, .null])]])] := by cbv

theorem canonical_of_read_reference :
    Value.ofShell 9 "[{a: NaN, b: Date, a: /x/gd}, Date]" =
        .ok (.array [.document [("a", .regex ⟨"x", "dg"⟩)], .null]) ∧
      (Value.array [.document [("a", .regex ⟨"x", "dg"⟩)], .null]).Canonical ∧
      Command.ofShell 9 3 "db.c.insertOne({a: [Date, NaN], b: Date})" =
        .ok [("insert", .string "c"),
          ("documents", .array [.document [("a", .array [.null, .null])]])] ∧
      (Value.document [("insert", .string "c"),
        ("documents", .array [.document [("a", .array [.null, .null])]])]).Canonical ∧
      (Value.array [.absent, .null]).plain.toJson = (Value.array [.absent, .null]).toJson := by
  have values := (canonical_of_read 9 3 "[{a: NaN, b: Date, a: /x/gd}, Date]").1
  rcases canonical_of_read 9 3 "db.c.insertOne({a: [Date, NaN], b: Date})" with
    ⟨_, commands, _, written⟩
  refine ⟨Value.ofShell_reference, (values _ Value.ofShell_reference).resolve_left ?_,
    Command.ofShell_reference, commands _ Command.ofShell_reference,
    written _ ⟨trivial, trivial, trivial, trivial⟩⟩
  intro absent
  cases absent

end DocShell
