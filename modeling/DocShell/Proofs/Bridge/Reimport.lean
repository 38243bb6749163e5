import DocShell.Proofs.Bridge.Return
import DocShell.Proofs.Json.Parts

namespace DocShell

/-! # From JSON to a value, and to JSON and back again

A value out of JSON is written in one spelling, whichever one it was read from, and that
spelling is read as the same value. There is one exception. A whole number counts as a
byte of an identifier only if it is spelled as an integer, and it is always written as
one. A document with an `id` of twelve bytes, of which one is spelled as a float, is
therefore an identifier the next time. -/

namespace Json

def IsByte : Json → Prop
  | .integer whole => ∃ byte < 256, whole = .ofNat byte
  | .float number => ∃ byte < 256, number.toExactInt? = some (.ofNat byte)
  | _ => False

/-- Twelve bytes, each under its place and in either spelling. -/
def SpellsLoosely : Json → Prop
  | .object members => members.length = 12 ∧ ∀ place < 12, ∃ json,
      Fields.get? (String.ofList (Text.ofNat place)) members = some json ∧ json.IsByte
  | _ => False

/-- Members that spell an identifier but for a byte that is spelled as a float. -/
def Blurred (members : List (String × Json)) : Prop :=
  ∃ inner, members = [("id", inner)] ∧ inner.SpellsLoosely ∧ ¬inner.SpellsIdentifier

theorem Blurred.not_reserved {members : List (String × Json)} (blurred : Blurred members) :
    ¬Reserved members := by
  rcases blurred with ⟨inner, rfl, _, notIdentifier⟩
  rw [Value.reserved_single]
  rintro (listed | ⟨_, spells⟩)
  · exact absurd listed (by decide)
  · exact notIdentifier spells

end Json

namespace Value

open Json

/-! ## Members once they are written again -/

theorem get?_reexport {members : List (String × Json)} {fields : Fields Value}
    (read : ofMembers members = .ok fields) (name : String) :
    Fields.get? name (fieldsToJson fields) =
      (Fields.get? name members).bind fun json => (ofJson json).toOption.map toJson := by
  induction members generalizing fields with
  | nil =>
      cases read
      rfl
  | cons member rest induction =>
      rcases member with ⟨other, json⟩
      rcases bind_eq_ok.mp read with ⟨first, found, more⟩
      rcases bind_pure_eq_ok.mp more with ⟨others, later, rfl⟩
      rw [fieldsToJson, not_isAbsent_of_ofJson found, if_neg Bool.false_ne_true, Fields.get?,
        Fields.get?]
      split
      · rw [Option.bind_some, found]
        rfl
      · exact induction later

theorem exists_ofJson_of_get? {members : List (String × Json)} {fields : Fields Value}
    (read : ofMembers members = .ok fields) {name : String} {json : Json}
    (present : Fields.get? name members = some json) : ∃ value, ofJson json = .ok value := by
  induction members generalizing fields with
  | nil => cases present
  | cons member rest induction =>
      rcases bind_eq_ok.mp read with ⟨first, found, more⟩
      rcases bind_pure_eq_ok.mp more with ⟨others, later, rfl⟩
      rw [Fields.get?] at present
      split at present
      · cases present
        exact ⟨first, found⟩
      · exact induction later present

/-- No field of a document out of JSON is left out when it is written again. -/
theorem presentFields_of_ofMembers {members : List (String × Json)} {fields : Fields Value}
    (read : ofMembers members = .ok fields) : presentFields fields = fields := by
  refine List.filter_eq_self.mpr fun field member => ?_
  rcases mem_ofMembers read field member with ⟨source, _, found⟩
  rw [not_isAbsent_of_ofJson found]
  rfl

theorem names_reexport {members : List (String × Json)} {fields : Fields Value}
    (read : ofMembers members = .ok fields) :
    Fields.names (fieldsToJson fields) = Fields.names members := by
  rw [fieldsToJson_eq, presentFields_of_ofMembers read, ← names_of_ofMembers read, Fields.names,
    List.map_map]
  rfl

/-- An object is read as a typed value if its shape is reserved, and else as a document. -/
theorem ofJson_object_cases {members : List (String × Json)} {value : Value}
    (found : ofJson (.object members) = .ok value) :
    (Reserved members ∧ Typed value) ∨ (¬Reserved members ∧ ∃ fields,
      ofMembers members = .ok fields ∧ value = .document (Fields.ofPairs fields)) := by
  rw [ofJson] at found
  rcases bind_eq_ok.mp found with ⟨wrapped, shape, more⟩
  cases wrapped with
  | some typed =>
      cases more
      refine .inl ⟨Classical.byContradiction fun free => ?_, typed_of_ofWrapper? shape⟩
      cases (ofWrapper?_eq_none_iff.mpr free).symm.trans shape
  | none =>
      rcases bind_pure_eq_ok.mp more with ⟨fields, inside, rfl⟩
      exact .inr ⟨ofWrapper?_eq_none_iff.mp shape, fields, inside, rfl⟩

theorem toJson_of_isTyped {value : Value} (typed : value.isTyped = true) :
    ∃ name inner, toJson value = .wrapped name inner := by
  cases value with
  | absent => cases typed
  | null => cases typed
  | bool value => cases typed
  | number number => cases typed
  | string text => cases typed
  | array items => cases typed
  | document fields => cases typed
  | _ => exact ⟨_, _, rfl⟩

/-! ## Bytes -/

theorem toJson_ofInteger {whole : Int} {value : Value} (found : ofInteger whole = .ok value) :
    toJson value = .integer whole := by
  rw [ofInteger] at found
  split at found
  · rename_i small
    cases found
    rw [toJson, jsonOfNumber, Double.toExactInt?_ofInt small]
  · cases found

theorem toJson_number_eq_integer {number : Double} {whole : Int} :
    toJson (.number number) = .integer whole ↔ number.toExactInt? = some whole := by
  rw [toJson, jsonOfNumber]
  cases number.toExactInt? with
  | some other => simp only [Json.integer.injEq, Option.some.injEq]
  | none => cases number.isFinite <;> simp [typedDouble, Json.wrapped]

theorem toJson_ne_integer_of_object {members : List (String × Json)} {value : Value}
    (found : ofJson (.object members) = .ok value) (whole : Int) : toJson value ≠ .integer whole := by
  rcases ofJson_object_cases found with ⟨_, typed⟩ | ⟨_, fields, _, rfl⟩
  · rcases toJson_of_isTyped typed.typed with ⟨name, inner, equal⟩
    rw [equal]
    intro same
    cases same
  · intro same
    cases same

theorem toJson_ne_integer_of_array {items : List Json} {value : Value}
    (found : ofJson (.array items) = .ok value) (whole : Int) : toJson value ≠ .integer whole := by
  rcases bind_pure_eq_ok.mp found with ⟨values, _, rfl⟩
  intro same
  cases same

/-- A number is written as a byte just if it was one in either spelling. -/
theorem isByte_iff {json : Json} {value : Value} (found : ofJson json = .ok value) :
    json.IsByte ↔ ∃ byte < 256, toJson value = .integer (.ofNat byte) := by
  have never (other : ∀ whole, toJson value ≠ .integer whole) :
      ¬∃ byte < 256, toJson value = .integer (.ofNat byte) := by
    rintro ⟨byte, _, equal⟩
    exact other _ equal
  cases json with
  | integer whole =>
      rw [toJson_ofInteger found, IsByte]
      simp only [Json.integer.injEq]
  | float number =>
      cases found
      simp only [IsByte, toJson_number_eq_integer]
  | null =>
      cases found
      refine iff_of_false id (never fun whole same => ?_)
      cases same
  | bool value =>
      cases found
      refine iff_of_false id (never fun whole same => ?_)
      cases same
  | string text =>
      cases found
      refine iff_of_false id (never fun whole same => ?_)
      cases same
  | array items => exact iff_of_false id (never (toJson_ne_integer_of_array found))
  | object members => exact iff_of_false id (never (toJson_ne_integer_of_object found))

/-! ## Identifiers -/

theorem document_of_spellsIdentifier {value : Value} (spells : (toJson value).SpellsIdentifier) :
    ∃ fields, value = .document fields := by
  cases value with
  | document fields => exact ⟨fields, rfl⟩
  | number number =>
      rw [toJson, jsonOfNumber] at spells
      split at spells
      · exact spells.elim
      · split at spells
        · exact spells.elim
        · cases spells.1
  | absent => exact spells.elim
  | null => exact spells.elim
  | bool value => exact spells.elim
  | string text => exact spells.elim
  | array items => exact spells.elim
  | _ => cases spells.1

theorem get?_byte_reexport {members : List (String × Json)} {fields : Fields Value}
    (read : ofMembers members = .ok fields) (name : String) :
    (∃ byte < 256, Fields.get? name (fieldsToJson fields) = some (.integer (.ofNat byte))) ↔
      ∃ json, Fields.get? name members = some json ∧ json.IsByte := by
  rw [get?_reexport read]
  cases present : Fields.get? name members with
  | none =>
      constructor
      · rintro ⟨_, _, equal⟩
        cases equal
      · rintro ⟨_, equal, _⟩
        cases equal
  | some json =>
      rcases exists_ofJson_of_get? read present with ⟨value, found⟩
      have written : (ofJson json).toOption.map toJson = some (toJson value) := by
        rw [found]
        rfl
      simp only [Option.bind_some, written, Option.some.injEq, exists_eq_left', isByte_iff found]

/-- A document is written as the bytes of an identifier just if they were bytes in either
spelling. -/
theorem spellsIdentifier_document {members : List (String × Json)} {fields : Fields Value}
    (read : ofMembers members = .ok fields) :
    (toJson (.document fields)).SpellsIdentifier ↔ (Json.object members).SpellsLoosely := by
  have length : (fieldsToJson fields).length = members.length := by
    have names := congrArg List.length (names_reexport read)
    rwa [Fields.names, Fields.names, List.length_map, List.length_map] at names
  rw [toJson, SpellsIdentifier, SpellsLoosely, length]
  simp only [get?_byte_reexport read]

theorem not_reserved_of_spellsLoosely {members : List (String × Json)}
    (spells : (Json.object members).SpellsLoosely) : ¬Reserved members := by
  have twelve : (Fields.names members).length = 12 := by
    rw [Fields.names, List.length_map, spells.1]
  rintro (⟨_, _, names⟩ | ⟨_, rfl, _⟩ | names | names)
  · rw [names] at twelve
    cases twelve
  · cases twelve
  · rw [names] at twelve
    cases twelve
  · rw [names] at twelve
    cases twelve

theorem spellsIdentifier_iff {json : Json} {value : Value} (distinct : json.Distinct)
    (found : ofJson json = .ok value) :
    (toJson value).SpellsIdentifier ↔ json.SpellsLoosely := by
  cases json with
  | object members =>
      rcases ofJson_object_cases found with ⟨reserved, typed⟩ | ⟨free, fields, inside, rfl⟩
      · refine iff_of_false (fun spells => ?_) fun spells =>
          not_reserved_of_spellsLoosely spells reserved
        rcases document_of_spellsIdentifier spells with ⟨fields, rfl⟩
        cases typed.typed
      · have nodup := (objects_object.mp distinct).1
        rw [Fields.ofPairs_of_nodup (names_of_ofMembers inside ▸ nodup)]
        exact spellsIdentifier_document inside
  | _ =>
      refine iff_of_false (fun spells => ?_) id
      rcases document_of_spellsIdentifier spells with ⟨fields, rfl⟩
      rcases members_of_ofJson found with ⟨members, equal, _⟩
      cases equal

/-! ## What is read a second time -/

def Unblurred (json : Json) : Prop :=
  Objects (fun members => ¬Reserved members) (fun members => ¬Blurred members) json

theorem reexport_single {name : String} {json : Json} {fields : Fields Value}
    (read : ofMembers [(name, json)] = .ok fields) :
    ∃ value, ofJson json = .ok value ∧ fieldsToJson fields = [(name, toJson value)] := by
  have kept := presentFields_of_ofMembers read
  rcases bind_eq_ok.mp read with ⟨value, found, more⟩
  cases more
  exact ⟨value, found, by rw [fieldsToJson_eq, kept]; rfl⟩

/-- Written again, a document has a reserved shape just if its identifier was blurred. -/
theorem reserved_reexport {members : List (String × Json)} {fields : Fields Value}
    (distinct : (Json.object members).Distinct) (free : ¬Reserved members)
    (read : ofMembers members = .ok fields) : Reserved (fieldsToJson fields) ↔ Blurred members := by
  have each := (objects_object.mp distinct).2 trivial
  have names := names_reexport read
  constructor
  · intro reserved
    -- the names are those of before, so only the value of an `id` can make the difference
    by_cases single : ∃ json, members = [("id", json)]
    · rcases single with ⟨json, rfl⟩
      rcases reexport_single read with ⟨value, found, written⟩
      rw [written, reserved_single] at reserved
      rw [reserved_single] at free
      have spells : (toJson value).SpellsIdentifier :=
        (reserved.resolve_left fun listed => free (.inl listed)).2
      refine ⟨json, rfl, ?_, fun already => free (.inr ⟨rfl, already⟩)⟩
      exact (spellsIdentifier_iff (each _ List.mem_cons_self) found).mp spells
    · rcases reserved with ⟨name, listed, only⟩ | ⟨inner, equal, _⟩ | both | both
      · exact absurd (.inl ⟨name, listed, names ▸ only⟩) free
      · rw [equal] at names
        rcases List.map_eq_singleton_iff.mp names.symm with ⟨⟨name, json⟩, only, same⟩
        cases same
        exact absurd ⟨json, only⟩ single
      · exact absurd (.inr (.inr (.inl (names ▸ both)))) free
      · exact absurd (.inr (.inr (.inr (names ▸ both)))) free
  · rintro ⟨json, rfl, loosely, _⟩
    rcases reexport_single read with ⟨value, found, written⟩
    rw [written]
    have spells := (spellsIdentifier_iff (each _ List.mem_cons_self) found).mpr loosely
    exact .inr (.inl ⟨toJson value, rfl, spells⟩)

theorem unreserved_items {items : List Json} {values : List Value}
    (each : ∀ item ∈ items, ∀ value, ofJson item = .ok value →
      (value.Unreserved ↔ Unblurred item))
    (found : ofItems items = .ok values) :
    (∀ value ∈ values, value.Unreserved) ↔ ∀ item ∈ items, Unblurred item := by
  induction items generalizing values with
  | nil =>
      cases found
      exact iff_of_true (fun _ member => absurd member List.not_mem_nil)
        fun _ member => absurd member List.not_mem_nil
  | cons item rest induction =>
      rcases bind_eq_ok.mp found with ⟨first, read, more⟩
      rcases bind_pure_eq_ok.mp more with ⟨others, later, rfl⟩
      rw [List.forall_mem_cons, List.forall_mem_cons, each item List.mem_cons_self first read,
        induction (fun other member => each other (List.mem_cons_of_mem _ member)) later]

theorem unreserved_fields {members : List (String × Json)} {fields : Fields Value}
    (each : ∀ member ∈ members, ∀ value, ofJson member.2 = .ok value →
      (value.Unreserved ↔ Unblurred member.2))
    (found : ofMembers members = .ok fields) :
    (∀ field ∈ fields, field.2.Unreserved) ↔ ∀ member ∈ members, Unblurred member.2 := by
  induction members generalizing fields with
  | nil =>
      cases found
      exact iff_of_true (fun _ member => absurd member List.not_mem_nil)
        fun _ member => absurd member List.not_mem_nil
  | cons member rest induction =>
      rcases bind_eq_ok.mp found with ⟨first, read, more⟩
      rcases bind_pure_eq_ok.mp more with ⟨others, later, rfl⟩
      rw [List.forall_mem_cons, List.forall_mem_cons, each member List.mem_cons_self first read,
        induction (fun other belongs => each other (List.mem_cons_of_mem _ belongs)) later]

theorem isContainer_of_ofJson {json : Json} {value : Value} (read : ofJson json = .ok value)
    (scalar : json.isContainer = false) : value.isContainer = false := by
  rcases ofJson_cases read with leaf | ⟨items, _, rfl, _⟩ | ⟨members, _, rfl, _⟩
  · exact leaf.scalar
  · cases scalar
  · cases scalar

/-- A value that was read has a document of a reserved shape just if an identifier was
blurred in the JSON. -/
theorem unreserved_iff_unblurred {json : Json} {value : Value} (distinct : json.Distinct)
    (found : ofJson json = .ok value) : value.Unreserved ↔ Unblurred json := by
  have scalar {json : Json} {value : Value} (leaf : value.isContainer = false)
      (objects : Unblurred json) : value.Unreserved ↔ Unblurred json := by
    refine iff_of_true ((everywhere_scalar leaf).mpr ?_) objects
    cases value with
    | document fields => cases leaf
    | _ => trivial
  induction json using Json.induction generalizing value with
  | scalar json leaf => exact scalar (isContainer_of_ofJson found leaf) (objects_of_leaf leaf)
  | array items induction =>
      rcases bind_pure_eq_ok.mp found with ⟨values, inside, rfl⟩
      have each := objects_array.mp distinct
      rw [Unreserved, everywhere_array, Unblurred, objects_array]
      exact (and_iff_right trivial).trans (unreserved_items
        (fun item member value read => induction item member (each item member) read) inside)
  | object members induction =>
      have parts := objects_object.mp distinct
      -- A wrapper leaves no document behind, and an object that is none keeps its names.
      rcases ofJson_object_cases found with ⟨reserved, typed⟩ | ⟨free, fields, inside, rfl⟩
      · refine scalar typed.scalar (objects_object.mpr ⟨?_, fun free => absurd reserved free⟩)
        exact fun blurred => blurred.not_reserved reserved
      · rw [Fields.ofPairs_of_nodup (names_of_ofMembers inside ▸ parts.1), Unreserved,
          everywhere_document, Unblurred, objects_object, UnreservedHere, ← reserved_fieldsToJson,
          reserved_reexport distinct free inside]
        have each := unreserved_fields (fun member belongs value read =>
          induction member belongs (parts.2 trivial member belongs) read) inside
        exact and_congr_right fun _ => each.trans (imp_iff_right free).symm

theorem stripItems_of_each {items : List Value} (each : ∀ item ∈ items, strip item = item) :
    stripItems items = items := by
  induction items with
  | nil => rfl
  | cons item rest induction =>
      rw [stripItems, each item List.mem_cons_self,
        induction fun other member => each other (List.mem_cons_of_mem _ member)]

theorem stripFields_of_each {fields : Fields Value}
    (each : ∀ field ∈ fields, field.2.isAbsent = false ∧ strip field.2 = field.2) :
    stripFields fields = fields := by
  induction fields with
  | nil => rfl
  | cons field rest induction =>
      rcases field with ⟨name, value⟩
      have here := each (name, value) List.mem_cons_self
      rw [stripFields, here.1, if_neg Bool.false_ne_true, here.2,
        induction fun other member => each other (List.mem_cons_of_mem _ member)]

theorem strip_of_present {value : Value} (present : value.Present) : strip value = value := by
  induction value using Value.induction with
  | scalar value scalar =>
      cases value with
      | absent => cases present.here
      | array items => cases scalar
      | document fields => cases scalar
      | _ => rfl
  | array items induction =>
      have inside := (everywhere_array.mp present).2
      rw [strip, stripItems_of_each fun item member => induction item member (inside item member)]
  | document fields induction =>
      have inside := (everywhere_document.mp present).2
      rw [strip, stripFields_of_each fun field member =>
        ⟨(inside field member).here, induction field member (inside field member)⟩]

/-- JSON that is read, written and read once more gives the same value again just if no
identifier in it is blurred, and then it is written alike from there on. -/
theorem reimport_iff_unblurred {json : Json} {value : Value} (distinct : json.Distinct)
    (found : ofJson json = .ok value) :
    ((∃ read, ofJson (toJson value) = .ok read ∧ read.semanticEq value = true) ↔
        ∀ members, Within (fun members => ¬Reserved members) (.object members) json →
          ¬Blurred members) ∧
      ∀ read, ofJson (toJson value) = .ok read → read.semanticEq value = true →
        toJson read = toJson value := by
  have sound := sound_of_ofJson found
  have stripped := strip_of_present (present_of_ofJson found)
  have unblurred := unreserved_iff_unblurred distinct found
  have comesBack : ComesBack value ↔
      ∃ read, ofJson (toJson value) = .ok read ∧ read.semanticEq value = true := by
    rw [ComesBack, stripped]
  constructor
  · rw [← comesBack]
    constructor
    · intro back
      exact unblurred.mp (unreserved_of_comesBack sound back)
    · intro free
      rcases returns_of_unreserved sound (unblurred.mpr free) with ⟨read, again, equal, _⟩
      exact ⟨read, again, equal⟩
  · intro read again equal
    have free := unreserved_of_comesBack sound (comesBack.mpr ⟨read, again, equal⟩)
    rcases returns_of_unreserved sound free with ⟨other, same, _, alike⟩
    cases again.symm.trans same
    exact alike

/-! ### Twelve zeros -/

def twelve {ι : Type} (item : ι) : Fields ι :=
  (List.range 12).map fun place => (String.ofList (Text.ofNat place), item)

theorem distinct_twelve (name : String) (number : Double) :
    Distinct (.object [(name, .object (twelve (.float number)))]) := by
  have names : (Fields.names (twelve (Json.float number))).Nodup := by
    change ["0", "1", "2", "3", "4", "5", "6", "7", "8", "9", "10", "11"].Nodup
    decide
  have single : [name].Nodup := List.nodup_cons.mpr ⟨List.not_mem_nil, List.nodup_nil⟩
  refine objects_object.mpr ⟨single, fun _ outer inside => ?_⟩
  cases List.mem_singleton.mp inside
  refine objects_object.mpr ⟨names, fun _ member belongs => ?_⟩
  rcases List.mem_map.mp belongs with ⟨place, _, rfl⟩
  exact objects_of_leaf rfl

/-- Under another name than `id` twelve floats stay what they are. -/
theorem reimport_twelve :
    ofJson (.object [("_id", .object (twelve (.float .zero)))]) =
        .ok (.document [("_id", .document (twelve (.number .zero)))]) ∧
      ∃ read, ofJson (toJson (.document [("_id", .document (twelve (.number .zero)))])) = .ok read ∧
        read.semanticEq (.document [("_id", .document (twelve (.number .zero)))]) = true := by
  refine ⟨rfl, (reimport_iff_unblurred (distinct_twelve "_id" .zero) rfl).1.mpr ?_⟩
  have unblurred : Unblurred (.object [("_id", .object (twelve (.float .zero)))]) := by
    refine objects_object.mpr ⟨?_, fun _ outer inside => ?_⟩
    · rintro ⟨inner, equal, _⟩
      exact absurd (List.cons.inj equal).1 (by simp)
    cases List.mem_singleton.mp inside
    refine objects_object.mpr ⟨?_, fun _ member belongs => ?_⟩
    · rintro ⟨inner, equal, _⟩
      cases congrArg List.length equal
    rcases List.mem_map.mp belongs with ⟨place, _, rfl⟩
    exact objects_of_leaf rfl
  exact unblurred

theorem fieldsToJson_twelve {value : Value} (present : value.isAbsent = false) :
    fieldsToJson (twelve value) = twelve (toJson value) := by
  have kept : presentFields (twelve value) = twelve value := by
    refine List.filter_eq_self.mpr fun field member => ?_
    rcases List.mem_map.mp member with ⟨place, _, rfl⟩
    rw [present]
    rfl
  rw [fieldsToJson_eq, kept, twelve, List.map_map]
  rfl

/-- A document whose `id` is spelled with floats is an identifier the second time. -/
theorem not_reimport_blurred :
    Distinct (.object [("id", .object (twelve (.float .zero)))]) ∧
      ofJson (.object [("id", .object (twelve (.float .zero)))]) =
        .ok (.document [("id", .document (twelve (.number .zero)))]) ∧
      ofJson (toJson (.document [("id", .document (twelve (.number .zero)))])) =
        .ok (.objectId ⟨List.replicate 12 0, rfl⟩) ∧
      ¬∃ read, ofJson (toJson (.document [("id", .document (twelve (.number .zero)))])) = .ok read ∧
        read.semanticEq (.document [("id", .document (twelve (.number .zero)))]) = true := by
  have zero : Double.zero.toExactInt? = some 0 := by decide +kernel
  have bytes : fieldsToJson (twelve (number .zero)) = twelve (integer 0) := by
    rw [fieldsToJson_twelve rfl, toJson, jsonOfNumber, zero]
  have written : toJson (.document [("id", .document (twelve (.number .zero)))]) =
      .object [("id", .object (twelve (.integer 0)))] := by
    simp only [toJson, fieldsToJson, isAbsent, bytes, Bool.false_eq_true, if_false]
  have again : ofJson (.object [("id", .object (twelve (.integer 0)))]) =
      .ok (.objectId ⟨List.replicate 12 0, rfl⟩) := rfl
  refine ⟨distinct_twelve "id" .zero, rfl, written ▸ again, ?_⟩
  rintro ⟨read, found, equal⟩
  rw [written, again] at found
  cases found
  simp [semanticEq, bareNumber?, same] at equal

end Value

end DocShell
