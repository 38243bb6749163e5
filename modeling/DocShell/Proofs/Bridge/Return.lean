import DocShell.Bridge.Export
import DocShell.Proofs.Bridge.Reserved
import DocShell.Proofs.Bridge.RoundTrip
import DocShell.Proofs.Number.ReadBack
import DocShell.Proofs.Value.Decoded

namespace DocShell

namespace Value

open Json

/-! # From a value to JSON and back

What is written as JSON is read as the same value, without what is absent, as long as no
document has a reserved shape. A document that has one comes back as something else, or
not at all. -/

mutual

/-- A value without its absent fields, in which everything else that is absent is null. -/
def strip : Value → Value
  | .absent => .null
  | .array items => .array (stripItems items)
  | .document fields => .document (stripFields fields)
  | value => value

def stripItems : List Value → List Value
  | [] => []
  | item :: rest => strip item :: stripItems rest

def stripFields : List (String × Value) → List (String × Value)
  | [] => []
  | (name, value) :: rest =>
      if value.isAbsent then stripFields rest else (name, strip value) :: stripFields rest

end

def presentFields (fields : Fields Value) : Fields Value :=
  fields.filter fun field => !field.2.isAbsent

/-- Fields that look like a typed value once they are written. -/
def WrapperShaped (fields : Fields Value) : Prop :=
  (∃ name ∈ typeNames, Fields.names fields = [name]) ∨
    (∃ value, fields = [("id", value)] ∧ (toJson value).SpellsIdentifier) ∨
    Fields.names fields = ["$binary", "$type"] ∨ Fields.names fields = ["$type", "$binary"]

def UnreservedHere : Value → Prop
  | .document fields => ¬WrapperShaped (presentFields fields)
  | _ => True

def Unreserved (value : Value) : Prop := value.Everywhere UnreservedHere

theorem fieldsToJson_eq (fields : Fields Value) :
    fieldsToJson fields = (presentFields fields).map fun field => (field.1, toJson field.2) := by
  induction fields with
  | nil => rfl
  | cons field rest induction =>
      rcases field with ⟨name, value⟩
      rw [fieldsToJson, presentFields, List.filter_cons]
      cases value.isAbsent with
      | true => exact induction
      | false => exact congrArg (List.cons (name, toJson value)) induction

theorem reserved_fieldsToJson {fields : Fields Value} :
    Reserved (fieldsToJson fields) ↔ WrapperShaped (presentFields fields) := by
  have names : Fields.names (fieldsToJson fields) = Fields.names (presentFields fields) := by
    rw [fieldsToJson_eq, Fields.names, List.map_map]
    rfl
  have single : (∃ inner, fieldsToJson fields = [("id", inner)] ∧ inner.SpellsIdentifier) ↔
      ∃ value, presentFields fields = [("id", value)] ∧ (toJson value).SpellsIdentifier := by
    rw [fieldsToJson_eq]
    constructor
    · rintro ⟨inner, equal, spells⟩
      rcases List.map_eq_singleton_iff.mp equal with ⟨⟨name, value⟩, only, same⟩
      cases same
      exact ⟨value, only, spells⟩
    · rintro ⟨value, equal, spells⟩
      exact ⟨toJson value, by rw [equal]; rfl, spells⟩
  rw [Reserved, WrapperShaped, names, single]

theorem names_fieldsToJson_sublist (fields : Fields Value) :
    (Fields.names (fieldsToJson fields)).Sublist (Fields.names fields) := by
  rw [fieldsToJson_eq, Fields.names, List.map_map]
  exact List.filter_sublist.map _

/-! ## Scalars -/

theorem ofJson_wrapped {name : String} {inner : Json} {value : Value} (other : name ≠ "id")
    (read : ofSingle? name inner = .ok (some value)) : ofJson (.wrapped name inner) = .ok value := by
  rw [Json.wrapped, ofJson, ofWrapper?, if_neg other, read]
  rfl

theorem subtypeOfText?_subtypeText (subtype : UInt8) :
    subtypeOfText? (subtypeText subtype) = some subtype := by
  have each : ∀ code ∈ List.range 256,
      subtypeOfText? (subtypeText (UInt8.ofNat code)) = some (UInt8.ofNat code) := by decide +kernel
  have found := each subtype.toNat (List.mem_range.mpr subtype.toNat_lt)
  rwa [UInt8.ofNat_toNat] at found

theorem intOfText?_ofInt (value : Int32) :
    intOfText? (String.ofList (Text.ofInt value.toInt)) = some value := by
  have fits : FitsInt value.toInt := ⟨value.le_toInt, value.toInt_lt⟩
  rw [intOfText?, String.toList_ofList, Text.int?_ofInt, Option.filter_some]
  simp [fits]

theorem ofJson_typedDouble (number : Double) :
    ofJson (typedDouble number) = .ok (.double number.unsignedZero) := by
  have read : orMalformed "$numberDouble" (.string (String.ofList number.shellText))
      (Double.ofText? (String.ofList number.shellText).toList) = .ok number.unsignedZero := by
    rw [String.toList_ofList, Double.ofText?_shellText]
    rfl
  exact ofJson_wrapped (by decide) (bind_eq_ok.mpr ⟨_, rfl, bind_pure_eq_ok.mpr ⟨_, read, rfl⟩⟩)

theorem ofJson_int (number : Int32) : ofJson (toJson (.int number)) = .ok (.int number) := by
  have read : orMalformed "$numberInt" (.string (String.ofList (Text.ofInt number.toInt)))
      (intOfText? (String.ofList (Text.ofInt number.toInt))) = .ok number := by
    rw [intOfText?_ofInt]
    rfl
  exact ofJson_wrapped (by decide) (bind_pure_eq_ok.mpr ⟨_, read, rfl⟩)

theorem ofJson_long (digits : LongText) : ofJson (toJson (.long digits)) = .ok (.long digits) := by
  have read : longOfText "$numberLong" digits.text = .ok digits := by
    rw [longOfText, LongText.parse_text]
  exact ofJson_wrapped (by decide) (bind_eq_ok.mpr ⟨_, rfl, bind_pure_eq_ok.mpr ⟨_, read, rfl⟩⟩)

theorem ofJson_decimal (digits : DecimalText) :
    ofJson (toJson (.decimal digits)) = .ok (.decimal digits) := by
  have read : decimalOfText (.string digits.text) digits.text = .ok digits := by
    rw [decimalOfText, DecimalText.parse_text]
  exact ofJson_wrapped (by decide) (bind_eq_ok.mpr ⟨_, rfl, bind_pure_eq_ok.mpr ⟨_, read, rfl⟩⟩)

theorem ofJson_objectId (identifier : ObjectId) :
    ofJson (toJson (.objectId identifier)) = .ok (.objectId identifier) := by
  have read : orMalformed "$oid" (.string identifier.hex) (ObjectId.ofHex? identifier.hex) =
      .ok identifier := by
    rw [ObjectId.ofHex?_hex]
    rfl
  exact ofJson_wrapped (by decide) (bind_pure_eq_ok.mpr ⟨_, read, rfl⟩)

theorem ofJson_date {instant : Int} (within : instant.natAbs ≤ Calendar.instantLimit) :
    ofJson (toJson (.date instant)) = .ok (.date instant) := by
  have fits : FitsLong instant := by
    rw [Calendar.instantLimit] at within
    unfold FitsLong
    omega
  have digits : longOfText "$date" (String.ofList (Text.ofInt instant)) =
      .ok (LongText.ofInt instant fits) := by
    rw [longOfText]
    have read := LongText.parse_text (LongText.ofInt instant fits)
    rw [LongText.ofInt] at read
    rw [read]
    rfl
  have spelled : spelledInstant (.wrapped "$numberLong" (.string (String.ofList (Text.ofInt instant)))) =
      .ok instant :=
    bind_eq_ok.mpr ⟨_, rfl, bind_pure_eq_ok.mpr ⟨_, digits, LongText.value_ofInt instant fits⟩⟩
  have read : instantOf (.wrapped "$numberLong" (.string (String.ofList (Text.ofInt instant)))) =
      .ok instant := by
    rw [instantOf, spelled]
    exact if_pos within
  exact ofJson_wrapped (by decide) (bind_pure_eq_ok.mpr ⟨_, read, rfl⟩)

theorem ofJson_binary (data : Binary) : ofJson (toJson (.binary data)) = .ok (.binary data) := by
  rcases data with ⟨subtype, payload, decodes⟩
  let members := Json.object [("base64", .string payload), ("subType", .string (subtypeText subtype))]
  have byte : orMalformed "$binary subType" members (subtypeOfText? (subtypeText subtype)) =
      .ok subtype := by
    rw [subtypeOfText?_subtypeText]
    rfl
  have made : orMalformed "$binary base64" members
      ((Binary.ofBase64? subtype payload).map binary) =
        .ok (binary ⟨subtype, payload, decodes⟩) := by
    rw [Binary.ofBase64?, dif_pos decodes]
    rfl
  have read : binaryOf members = .ok (.binary ⟨subtype, payload, decodes⟩) :=
    bind_eq_ok.mpr ⟨payload, rfl, bind_eq_ok.mpr ⟨subtypeText subtype, rfl,
      bind_eq_ok.mpr ⟨subtype, byte, made⟩⟩⟩
  exact ofJson_wrapped (by decide) (bind_pure_eq_ok.mpr ⟨_, read, rfl⟩)

theorem wordMember_eq_ok {what name : String} {json : Json} {word : UInt32}
    (present : json.member? name = some (.integer word.toNat)) :
    wordMember what name json = .ok word := by
  have below : natBelow? (2 ^ 32) (.integer word.toNat) = some word.toNat :=
    if_pos word.toNat_lt
  rw [wordMember, present, Option.bind_some, below, Option.map_some, UInt32.ofNat_toNat]
  rfl

theorem ofJson_timestamp (seconds increment : UInt32) :
    ofJson (toJson (.timestamp seconds increment)) = .ok (.timestamp seconds increment) := by
  let members := Json.object [("t", .integer seconds.toNat), ("i", .integer increment.toNat)]
  have first : wordMember "$timestamp" "t" members = .ok seconds := wordMember_eq_ok rfl
  have second : wordMember "$timestamp" "i" members = .ok increment := wordMember_eq_ok rfl
  exact ofJson_wrapped (by decide)
    (bind_eq_ok.mpr ⟨_, first, bind_pure_eq_ok.mpr ⟨_, second, rfl⟩⟩)

/-- A value that comes back from JSON without what is absent, and is written alike again. -/
def Returns (value : Value) : Prop :=
  ∃ read, ofJson (toJson value) = .ok read ∧ read.semanticEq (strip value) = true ∧
    toJson read = toJson value

theorem returns_number (number : Double) : Returns (.number number) := by
  -- Whole numbers become integers, the others floats, and what JSON has no number for a wrapper.
  cases exact : number.toExactInt? with
  | some whole =>
      have small := Double.natAbs_le_of_toExactInt? exact
      have written : toJson (.number number) = .integer whole := by
        rw [toJson, jsonOfNumber, exact]
      refine ⟨.number (Double.ofInt whole), ?_, ?_, ?_⟩
      · rw [written, ofJson, ofInteger, if_pos small]
      · simp only [strip, semanticEq, bareNumber?, equalNumbers, Double.equal_ofInt exact, Bool.true_or]
      · rw [written, toJson, jsonOfNumber, Double.toExactInt?_ofInt small]
  | none =>
      have written : toJson (.number number) =
          if number.isFinite then .float number else typedDouble number := by
        rw [toJson, jsonOfNumber, exact]
      cases finite : number.isFinite with
      | true =>
          rw [finite, if_pos rfl] at written
          refine ⟨.number number, ?_, ?_, rfl⟩
          · rw [written, ofJson]
          · simp only [strip, semanticEq, bareNumber?, equalNumbers_self]
      | false =>
          have same : number.unsignedZero = number := by
            cases number with
            | finite negative magnitude => cases finite
            | _ => rfl
          rw [finite, if_neg Bool.false_ne_true] at written
          refine ⟨.double number, ?_, ?_, ?_⟩
          · rw [written, ofJson_typedDouble, same]
          · simp only [strip, semanticEq, bareNumber?, equalNumbers_self]
          · rw [written, toJson]

theorem returns_double (number : Double) : Returns (.double number) := by
  have equal : equalNumbers number.unsignedZero number = true := by
    cases number with
    | finite negative magnitude => exact equalNumbers_normal negative magnitude
    | _ => exact equalNumbers_self _
  refine ⟨.double number.unsignedZero, ofJson_typedDouble number, ?_, ?_⟩
  · simp only [strip, semanticEq, bareNumber?, equal]
  · rw [toJson, toJson, typedDouble, typedDouble, Double.shellText_unsignedZero]

theorem semanticEq_self {value : Value} (scalar : value.isContainer = false) :
    value.semanticEq value = true := by
  cases value with
  | array items => cases scalar
  | document fields => cases scalar
  | _ => simp [semanticEq, bareNumber?, same, equalNumbers_self]

/-- A scalar that JSON gives back unchanged. -/
theorem returns_of_eq {value : Value} (scalar : value.isContainer = false)
    (present : value.isAbsent = false) (read : ofJson (toJson value) = .ok value) :
    Returns value := by
  have stripped : strip value = value := by
    cases value with
    | absent => cases present
    | array items => cases scalar
    | document fields => cases scalar
    | _ => rfl
  exact ⟨value, read, stripped.symm ▸ semanticEq_self scalar, rfl⟩

theorem returns_scalar {value : Value} (scalar : value.isContainer = false)
    (sound : value.SoundHere) : Returns value := by
  cases value with
  | absent => exact ⟨.null, rfl, rfl, rfl⟩
  | null => exact returns_of_eq rfl rfl rfl
  | bool value => exact returns_of_eq rfl rfl rfl
  | number number => exact returns_number number
  | string text => exact returns_of_eq rfl rfl rfl
  | objectId identifier => exact returns_of_eq rfl rfl (ofJson_objectId identifier)
  | int number => exact returns_of_eq rfl rfl (ofJson_int number)
  | long digits => exact returns_of_eq rfl rfl (ofJson_long digits)
  | decimal digits => exact returns_of_eq rfl rfl (ofJson_decimal digits)
  | double number => exact returns_double number
  | date instant => exact returns_of_eq rfl rfl (ofJson_date sound)
  | regex pattern => exact returns_of_eq rfl rfl (ofJson_toJson_pattern sound)
  | timestamp seconds increment => exact returns_of_eq rfl rfl (ofJson_timestamp seconds increment)
  | binary data => exact returns_of_eq rfl rfl (ofJson_binary data)
  | array items => cases scalar
  | document fields => cases scalar

/-! ## Containers -/

theorem exists_ofItems {items : List Value} (each : ∀ item ∈ items, Returns item) :
    ∃ reads, ofItems (itemsToJson items) = .ok reads ∧
      semanticEqItems reads (stripItems items) = true ∧ itemsToJson reads = itemsToJson items := by
  induction items with
  | nil => exact ⟨[], rfl, rfl, rfl⟩
  | cons item rest induction =>
      rcases each item List.mem_cons_self with ⟨first, found, equal, alike⟩
      rcases induction fun other member => each other (List.mem_cons_of_mem _ member) with
        ⟨others, later, equals, allAlike⟩
      refine ⟨first :: others, ?_, ?_, ?_⟩
      · rw [itemsToJson, ofItems, found, later]
        rfl
      · rw [stripItems, semanticEqItems, equal, equals, Bool.and_self]
      · rw [itemsToJson, itemsToJson, alike, allAlike]

theorem returns_array {items : List Value} (each : ∀ item ∈ items, Returns item) :
    Returns (.array items) := by
  rcases exists_ofItems each with ⟨reads, found, equal, alike⟩
  refine ⟨.array reads, ?_, ?_, ?_⟩
  · rw [toJson, ofJson, found]
    rfl
  · rw [strip, semanticEq, equal]
  · rw [toJson, toJson, alike]

theorem not_isAbsent_of_ofJson {json : Json} {value : Value} (found : ofJson json = .ok value) :
    value.isAbsent = false :=
  (present_of_ofJson found).here

theorem exists_ofMembers {fields : List (String × Value)}
    (each : ∀ field ∈ fields, Returns field.2) :
    ∃ reads, ofMembers (fieldsToJson fields) = .ok reads ∧
      semanticEqFields reads (stripFields fields) = true ∧
      fieldsToJson reads = fieldsToJson fields := by
  induction fields with
  | nil => exact ⟨[], rfl, rfl, rfl⟩
  | cons field rest induction =>
      rcases field with ⟨name, value⟩
      rcases induction fun other member => each other (List.mem_cons_of_mem _ member) with
        ⟨others, later, equals, allAlike⟩
      rw [fieldsToJson, stripFields]
      cases value.isAbsent with
      | true => exact ⟨others, later, equals, allAlike⟩
      | false =>
          rcases each (name, value) List.mem_cons_self with ⟨first, found, equal, alike⟩
          refine ⟨(name, first) :: others, ?_, ?_, ?_⟩
          · rw [if_neg Bool.false_ne_true, ofMembers, found, later]
            rfl
          · rw [if_neg Bool.false_ne_true, semanticEqFields, equal, equals, beq_self_eq_true]
            rfl
          · rw [if_neg Bool.false_ne_true, fieldsToJson, not_isAbsent_of_ofJson found,
              if_neg Bool.false_ne_true, alike, allAlike]

/-- Members with different names that are no typed value are read as a document of what
each of them is read as. -/
theorem ofJson_document {members : List (String × Json)} {fields : Fields Value}
    (free : ¬Reserved members) (nodup : (Fields.names members).Nodup)
    (read : ofMembers members = .ok fields) : ofJson (.object members) = .ok (.document fields) := by
  rw [ofJson, ofWrapper?_eq_none_iff.mpr free]
  refine bind_pure_eq_ok.mpr ⟨fields, read, ?_⟩
  rw [Fields.ofPairs_of_nodup (names_of_ofMembers read ▸ nodup)]

theorem returns_document {fields : List (String × Value)} (nodup : (Fields.names fields).Nodup)
    (free : ¬WrapperShaped (presentFields fields)) (each : ∀ field ∈ fields, Returns field.2) :
    Returns (.document fields) := by
  rcases exists_ofMembers each with ⟨reads, found, equal, alike⟩
  have different := nodup.sublist (names_fieldsToJson_sublist fields)
  refine ⟨.document reads, ?_, ?_, ?_⟩
  · exact ofJson_document (mt reserved_fieldsToJson.mp free) different found
  · rw [strip, semanticEq, equal]
  · rw [toJson, toJson, alike]

/-- Off the reserved shapes a value comes back. -/
theorem returns_of_unreserved {value : Value} (sound : value.Sound) (free : value.Unreserved) :
    Returns value := by
  induction value using Value.induction with
  | scalar value scalar => exact returns_scalar scalar sound.here
  | array items induction =>
      have sounds := (everywhere_array.mp sound).2
      have frees := (everywhere_array.mp free).2
      exact returns_array fun item member =>
        induction item member (sounds item member) (frees item member)
  | document fields induction =>
      have sounds := (everywhere_document.mp sound).2
      have frees := (everywhere_document.mp free).2
      exact returns_document sound.here free.here fun field member =>
        induction field member (sounds field member) (frees field member)

/-! ## Reserved shapes do not come back -/

/-- A value that comes back from JSON without what is absent. -/
def ComesBack (value : Value) : Prop :=
  ∃ read, ofJson (toJson value) = .ok read ∧ read.semanticEq (strip value) = true

theorem comesBack_items {items reads : List Value}
    (found : ofItems (itemsToJson items) = .ok reads)
    (equal : semanticEqItems reads (stripItems items) = true) :
    ∀ item ∈ items, ComesBack item := by
  induction items generalizing reads with
  | nil =>
      intro item member
      cases member
  | cons item rest induction =>
      rcases bind_eq_ok.mp found with ⟨first, read, more⟩
      rcases bind_pure_eq_ok.mp more with ⟨others, later, rfl⟩
      rw [stripItems, semanticEqItems, Bool.and_eq_true] at equal
      intro other member
      rcases List.mem_cons.mp member with rfl | inner
      · exact ⟨first, read, equal.1⟩
      · exact induction later equal.2 other inner

theorem comesBack_fields {fields reads : List (String × Value)}
    (found : ofMembers (fieldsToJson fields) = .ok reads)
    (equal : semanticEqFields reads (stripFields fields) = true) :
    ∀ field ∈ fields, field.2.isAbsent = true ∨ ComesBack field.2 := by
  induction fields generalizing reads with
  | nil =>
      intro field member
      cases member
  | cons field rest induction =>
      rcases field with ⟨name, value⟩
      rw [fieldsToJson] at found
      rw [stripFields] at equal
      intro other member
      cases absent : value.isAbsent with
      | true =>
          rw [absent, if_pos rfl] at found equal
          rcases List.mem_cons.mp member with rfl | inner
          · exact .inl absent
          · exact induction found equal other inner
      | false =>
          rw [absent, if_neg Bool.false_ne_true] at found equal
          rcases bind_eq_ok.mp found with ⟨first, read, more⟩
          rcases bind_pure_eq_ok.mp more with ⟨others, later, rfl⟩
          rw [semanticEqFields, Bool.and_eq_true, Bool.and_eq_true] at equal
          rcases List.mem_cons.mp member with rfl | inner
          · exact .inr ⟨first, read, equal.1.2⟩
          · exact induction later equal.2 other inner

theorem isDocument_of_semanticEq {read : Value} {fields : List (String × Value)}
    (equal : read.semanticEq (.document fields) = true) : ∃ others, read = .document others := by
  cases read with
  | document others => exact ⟨others, rfl⟩
  | _ => simp [semanticEq, bareNumber?, same] at equal

/-- What comes back for a document is a document only if its shape is not reserved. -/
theorem document_of_comesBack {fields : List (String × Value)}
    (nodup : (Fields.names fields).Nodup) (back : ComesBack (.document fields)) :
    ¬WrapperShaped (presentFields fields) ∧
      ∀ field ∈ fields, field.2.isAbsent = true ∨ ComesBack field.2 := by
  rcases back with ⟨read, found, equal⟩
  rcases isDocument_of_semanticEq equal with ⟨others, rfl⟩
  rw [toJson, ofJson] at found
  rcases bind_eq_ok.mp found with ⟨wrapped, shape, more⟩
  cases wrapped with
  | some typed =>
      -- a reserved shape is read as a typed value, and no document equals one
      cases more
      cases (typed_of_ofWrapper? shape).scalar
  | none =>
      rcases bind_pure_eq_ok.mp more with ⟨reads, members, same⟩
      have different := nodup.sublist (names_fieldsToJson_sublist fields)
      rw [Fields.ofPairs_of_nodup (names_of_ofMembers members ▸ different)] at same
      cases same
      rw [strip, semanticEq] at equal
      exact ⟨mt reserved_fieldsToJson.mpr (ofWrapper?_eq_none_iff.mp shape),
        comesBack_fields members equal⟩

theorem array_of_comesBack {items : List Value} (back : ComesBack (.array items)) :
    ∀ item ∈ items, ComesBack item := by
  rcases back with ⟨read, found, equal⟩
  rcases bind_pure_eq_ok.mp found with ⟨reads, inside, rfl⟩
  exact comesBack_items inside equal

theorem unreserved_of_comesBack {value : Value} (sound : value.Sound) (back : ComesBack value) :
    value.Unreserved := by
  induction value using Value.induction with
  | scalar value scalar =>
      refine (everywhere_scalar scalar).mpr ?_
      cases value with
      | document fields => cases scalar
      | _ => trivial
  | array items induction =>
      have sounds := (everywhere_array.mp sound).2
      exact everywhere_array.mpr ⟨trivial, fun item member =>
        induction item member (sounds item member) (array_of_comesBack back item member)⟩
  | document fields induction =>
      have sounds := (everywhere_document.mp sound).2
      rcases document_of_comesBack sound.here back with ⟨free, each⟩
      refine everywhere_document.mpr ⟨free, fun field member => ?_⟩
      rcases each field member with absent | inner
      · rw [eq_absent absent]
        trivial
      · exact induction field member (sounds field member) inner

/-! ## Values that come back -/

/-- A value comes back from JSON just if none of its documents has a reserved shape. -/
theorem comesBack_iff_unreserved {value : Value} (sound : value.Sound) :
    (∃ read, ofJson (toJson value) = .ok read ∧ read.semanticEq (strip value) = true) ↔
      value.Everywhere UnreservedHere := by
  constructor
  · exact unreserved_of_comesBack sound
  · intro free
    rcases returns_of_unreserved sound free with ⟨read, found, equal, _⟩
    exact ⟨read, found, equal⟩

/-- Beside a null, a name of a type is the name of a field. Beside an absent field it is
alone, and the document does not come back. -/
theorem comesBack_besideNull :
    (∃ read, ofJson (toJson (.document [("$oid", .null), ("x", .null)])) = .ok read ∧
        read.semanticEq (strip (.document [("$oid", .null), ("x", .null)])) = true) ∧
      ¬∃ read, ofJson (toJson (.document [("$oid", .null), ("x", .absent)])) = .ok read ∧
        read.semanticEq (strip (.document [("$oid", .null), ("x", .absent)])) = true := by
  have different : ["$oid", "x"].Nodup := by decide
  have beside : Sound (.document [("$oid", .null), ("x", .null)]) :=
    ⟨different, trivial, trivial, trivial⟩
  have alone : Sound (.document [("$oid", .null), ("x", .absent)]) :=
    ⟨different, trivial, trivial, trivial⟩
  constructor
  · apply (comesBack_iff_unreserved beside).mpr
    refine ⟨?_, trivial, trivial, trivial⟩
    simp [UnreservedHere, WrapperShaped, presentFields, isAbsent, Fields.names]
  · intro back
    have free := (comesBack_iff_unreserved alone).mp back
    exact free.1 (.inl ⟨"$oid", List.mem_cons_self, rfl⟩)

end Value

end DocShell
