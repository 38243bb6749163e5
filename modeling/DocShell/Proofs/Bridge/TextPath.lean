import DocShell.Bridge.Document
import DocShell.Proofs.Bridge.Return
import DocShell.Proofs.Json.Written

namespace DocShell.Value

/-! # The way through text

JSON of a value, written out and read again, denotes what the JSON itself does. For this the
text must keep integers and floats apart, since integers beyond the exact range are refused
and floats are not. -/

def DistinctHere : Value → Prop
  | .document fields => (Fields.names fields).Nodup
  | _ => True

def NamesDistinct (value : Value) : Prop := value.Everywhere DistinctHere

/-! ## What values are written as -/

theorem exact_typedDouble (number : Double) : (typedDouble number).Exact := .wrapped _ (.string _)

theorem exact_jsonOfNumber (number : Double) : (jsonOfNumber number).Exact := by
  rw [jsonOfNumber]
  split
  · rename_i whole found
    exact .integer (Double.natAbs_le_of_toExactInt? found)
  · split
    · exact .float ‹_›
    · exact exact_typedDouble number

theorem exact_word (word : UInt32) : (Json.integer word.toNat).Exact := by
  have small := word.toNat_lt
  have bound : Double.exactLimit = 9007199254740992 := rfl
  exact .integer (by omega)

theorem exact_pair {first second : String} (different : first ≠ second) {left right : Json}
    (here : left.Exact) (there : right.Exact) :
    (Json.object [(first, left), (second, right)]).Exact := by
  refine .object (by simpa [Fields.names] using different) fun member inside => ?_
  rcases List.mem_cons.mp inside with rfl | last
  · exact here
  · exact List.mem_singleton.mp last ▸ there

theorem mem_itemsToJson {items : List Value} {json : Json} (member : json ∈ itemsToJson items) :
    ∃ item ∈ items, json = item.toJson := by
  induction items with
  | nil => cases member
  | cons item rest induction =>
      rcases List.mem_cons.mp member with rfl | later
      · exact ⟨item, List.mem_cons_self, rfl⟩
      · rcases induction later with ⟨source, inside, equal⟩
        exact ⟨source, List.mem_cons_of_mem _ inside, equal⟩

/-- Whatever a value holds, its JSON has only numbers that doubles are. -/
theorem exact_toJson {value : Value} (distinct : value.NamesDistinct) : value.toJson.Exact := by
  induction value using Value.induction with
  | scalar value scalar =>
      cases value with
      | absent => exact .null
      | null => exact .null
      | bool value => exact .bool value
      | number number => exact exact_jsonOfNumber number
      | string text => exact .string text
      | double number => exact exact_typedDouble number
      | date instant => exact .wrapped _ (.wrapped _ (.string _))
      | regex pattern => exact .wrapped _ (exact_pair (by decide) (.string _) (.string _))
      | timestamp seconds increment =>
          exact .wrapped _ (exact_pair (by decide) (exact_word seconds) (exact_word increment))
      | binary data => exact .wrapped _ (exact_pair (by decide) (.string _) (.string _))
      | array items => cases scalar
      | document fields => cases scalar
      | _ => exact .wrapped _ (.string _)
  | array items induction =>
      have inside := (everywhere_array.mp distinct).2
      rw [toJson]
      refine .array fun json member => ?_
      rcases mem_itemsToJson member with ⟨item, belongs, rfl⟩
      exact induction item belongs (inside item belongs)
  | document fields induction =>
      rcases everywhere_document.mp distinct with ⟨nodup, inside⟩
      have names := nodup.sublist (names_fieldsToJson_sublist fields)
      rw [toJson]
      refine .object names fun member belongs => ?_
      rw [fieldsToJson_eq] at belongs
      rcases List.mem_map.mp belongs with ⟨field, present, rfl⟩
      have source := (List.mem_filter.mp present).1
      exact induction field source (inside field source)

/-! ## Integers are not refused -/

/-- A failure that is not about the size of an integer. -/
def KeepsIntegers (failure : Failure) : Prop :=
  ∀ number, failure ≠ .precision (.jsonInteger number)

theorem failsOnly_wrapper {ι : Type} (fault : WrapperFault) :
    FailsOnly KeepsIntegers (.error (.wrapper fault) : Import ι) :=
  failsOnly_error fun _ equal => by cases equal

theorem failsOnly_malformed {ι : Type} (what : String) (json : Json) :
    FailsOnly KeepsIntegers (malformed what json : Import ι) := failsOnly_wrapper _

theorem failsOnly_orMalformed {ι : Type} (what : String) (json : Json) (item : Option ι) :
    FailsOnly KeepsIntegers (orMalformed what json item) := by
  cases item with
  | none => exact failsOnly_malformed what json
  | some item => exact failsOnly_ok item

theorem failsOnly_longOfText (what text : String) :
    FailsOnly KeepsIntegers (longOfText what text) := by
  unfold longOfText
  split
  · exact failsOnly_ok _
  · exact failsOnly_error fun _ equal => by cases equal
  · exact failsOnly_wrapper _

theorem failsOnly_decimalOfText (json : Json) (text : String) :
    FailsOnly KeepsIntegers (decimalOfText json text) := by
  unfold decimalOfText
  split
  · exact failsOnly_ok _
  · exact failsOnly_error fun _ equal => by cases equal
  · exact failsOnly_malformed _ _

theorem failsOnly_instantOf (json : Json) : FailsOnly KeepsIntegers (instantOf json) := by
  have spelled : FailsOnly KeepsIntegers (spelledInstant json) := by
    unfold spelledInstant
    split
    · exact (failsOnly_orMalformed _ _ _).bind fun text =>
        (failsOnly_longOfText _ text).bind fun _ => failsOnly_ok _
    · exact failsOnly_orMalformed _ _ _
    · split
      · exact failsOnly_ok _
      · exact failsOnly_malformed _ _
    · exact failsOnly_malformed _ _
  refine spelled.bind fun instant => ?_
  split
  · exact failsOnly_ok _
  · exact failsOnly_wrapper _

theorem failsOnly_binaryOf (json : Json) : FailsOnly KeepsIntegers (binaryOf json) :=
  (failsOnly_orMalformed _ _ _).bind fun _ => (failsOnly_orMalformed _ _ _).bind fun _ =>
    (failsOnly_orMalformed _ _ _).bind fun _ => failsOnly_orMalformed _ _ _

theorem failsOnly_patternOf (json : Json) : FailsOnly KeepsIntegers (patternOf json) := by
  refine (failsOnly_orMalformed _ _ _).bind fun source =>
    (failsOnly_orMalformed _ _ _).bind fun options => ?_
  split
  · exact failsOnly_ok _
  · exact failsOnly_wrapper _

theorem failsOnly_ofSingle? (name : String) (inner : Json) :
    FailsOnly KeepsIntegers (ofSingle? name inner) := by
  have text : FailsOnly KeepsIntegers (orMalformed name inner inner.string?) :=
    failsOnly_orMalformed _ _ _
  unfold ofSingle?
  split
  · exact (failsOnly_orMalformed _ _ _).bind fun _ => failsOnly_ok _
  split
  · exact (failsOnly_instantOf _).bind fun _ => failsOnly_ok _
  split
  · exact (failsOnly_orMalformed _ _ _).bind fun _ => failsOnly_ok _
  split
  · exact text.bind fun _ => (failsOnly_longOfText _ _).bind fun _ => failsOnly_ok _
  split
  · exact text.bind fun _ => (failsOnly_orMalformed _ _ _).bind fun _ => failsOnly_ok _
  split
  · exact text.bind fun _ => (failsOnly_decimalOfText _ _).bind fun _ => failsOnly_ok _
  split
  · exact (failsOnly_patternOf _).bind fun _ => failsOnly_ok _
  split
  · exact (failsOnly_orMalformed _ _ _).bind fun _ =>
      (failsOnly_orMalformed _ _ _).bind fun _ => failsOnly_ok _
  split
  · exact (failsOnly_binaryOf _).bind fun _ => failsOnly_ok _
  · exact failsOnly_ok _

theorem failsOnly_ofWrapper? (members : List (String × Json)) :
    FailsOnly KeepsIntegers (ofWrapper? members) := by
  unfold ofWrapper?
  split
  · split
    · exact failsOnly_ok _
    · exact failsOnly_ofSingle? _ _
  · split
    · exact (failsOnly_binaryOf _).bind fun _ => failsOnly_ok _
    · exact failsOnly_ok _
  · exact failsOnly_ok _

theorem failsOnly_ofItems {items : List Json}
    (each : ∀ item ∈ items, FailsOnly KeepsIntegers (ofJson item)) :
    FailsOnly KeepsIntegers (ofItems items) := by
  induction items with
  | nil => exact failsOnly_ok _
  | cons item rest induction =>
      have later := induction fun other member => each other (List.mem_cons_of_mem _ member)
      exact (each item List.mem_cons_self).bind fun _ => later.bind fun _ => failsOnly_ok _

theorem failsOnly_ofMembers {members : List (String × Json)}
    (each : ∀ member ∈ members, FailsOnly KeepsIntegers (ofJson member.2)) :
    FailsOnly KeepsIntegers (ofMembers members) := by
  induction members with
  | nil => exact failsOnly_ok _
  | cons member rest induction =>
      have later := induction fun other inside => each other (List.mem_cons_of_mem _ inside)
      exact (each member List.mem_cons_self).bind fun _ => later.bind fun _ => failsOnly_ok _

/-- JSON of doubles may be refused, but not for an integer. -/
theorem failsOnly_ofJson {json : Json} (exact : json.Exact) :
    FailsOnly KeepsIntegers (ofJson json) := by
  induction exact with
  | integer small =>
      rw [ofJson, ofInteger, if_pos small]
      exact failsOnly_ok _
  | array each induction =>
      rw [ofJson]
      exact (failsOnly_ofItems induction).bind fun _ => failsOnly_ok _
  | object distinct each induction =>
      rw [ofJson]
      refine (failsOnly_ofWrapper? _).bind fun wrapped => ?_
      split
      · exact failsOnly_ok _
      · exact (failsOnly_ofMembers induction).bind fun _ => failsOnly_ok _
  | _ =>
      rw [ofJson]
      exact failsOnly_ok _

/-! ## Both ways -/

/-- The JSON text of a value denotes what its JSON does, or is refused with the same failure,
and no number is refused for its size. -/
theorem ofJsonText_jsonText {value : Value} (distinct : value.NamesDistinct)
    (shallow : value.toJson.depth ≤ Json.depthLimit) :
    ofJsonText value.jsonText = ofJson value.toJson ∧
      ∀ number, ofJsonText value.jsonText ≠ .error (.precision (.jsonInteger number)) := by
  have exact := exact_toJson distinct
  have same : ofJsonText value.jsonText = ofJson value.toJson := by
    rw [ofJsonText, jsonText, Json.parse?_compactText exact shallow]
  refine ⟨same, fun number failed => ?_⟩
  exact failsOnly_ofJson exact _ (same ▸ failed) number rfl

def beyondExact : Value :=
  document [("n", number (Double.ofInt 9007199254740994)), ("t", string "\n")]

theorem toJson_beyondExact :
    beyondExact.toJson =
      .object [("n", .float (Double.ofInt 9007199254740994)), ("t", .string "\n")] := by
  have inexact : (Double.ofInt 9007199254740994).toExactInt? = none := by decide +kernel
  have finite : (Double.ofInt 9007199254740994).isFinite = true := Double.isFinite_ofInt (by decide)
  simp only [beyondExact, toJson, fieldsToJson, isAbsent, jsonOfNumber, inexact, finite, if_true,
    Bool.false_eq_true, if_false]

theorem ofJsonText_jsonText_beyondExact :
    beyondExact.NamesDistinct ∧ beyondExact.toJson.depth ≤ Json.depthLimit ∧
      ofJsonText beyondExact.jsonText = .ok beyondExact := by
  have distinct : beyondExact.NamesDistinct := by
    refine everywhere_document.mpr ⟨by simp [DistinctHere, Fields.names], fun field member => ?_⟩
    rcases List.mem_cons.mp member with rfl | last
    · trivial
    · exact List.mem_singleton.mp last ▸ trivial
  have shallow : beyondExact.toJson.depth ≤ Json.depthLimit := toJson_beyondExact ▸ by decide
  refine ⟨distinct, shallow, ?_⟩
  rw [(ofJsonText_jsonText distinct shallow).1, toJson_beyondExact]
  rfl

end DocShell.Value
