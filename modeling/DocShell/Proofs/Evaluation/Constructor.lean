import DocShell.Evaluation.Constructor

namespace DocShell

/-! # What constructors build

The value of a call, from what its arguments are read as. -/

theorem DecimalText.parse_text (digits : DecimalText) : parse digits.text = .ok digits := by
  unfold parse
  split
  · rfl
  · rename_i fault reads
    exact absurd (reads.symm.trans digits.sound) (by simp)

namespace Constructor

variable (call place otherPlace : Position) (spelling otherSpelling : Option String)

theorem build_objectId (identifier : ObjectId) :
    objectId.build call [⟨.string identifier.hex, place, spelling⟩] = .ok (.objectId identifier) := by
  simp only [build, List.getElem?_cons_zero, Option.getD_some, buildObjectId, ObjectId.ofHex?_hex]

theorem build_long (digits : LongText) :
    long.build call [⟨.string digits.text, place, spelling⟩] = .ok (.long digits) := by
  simp only [build, List.getElem?_cons_zero, Option.getD_some, buildLong, digits.parse_text]

theorem build_decimal (digits : DecimalText) :
    decimal.build call [⟨.string digits.text, place, spelling⟩] = .ok (.decimal digits) := by
  have parsed := digits.parse_text
  generalize digits.text = text at parsed
  simp only [build, List.getElem?_cons_zero, Option.getD_some, buildDecimal, decimalDigits, bind,
    Except.bind, parsed]

theorem build_date {constructor : Constructor} (isDate : constructor = date ∨ constructor = isoDate)
    {value : Value} {instant : Int} (present : value.isAbsent = false)
    (found : instant? value = some instant) :
    constructor.build call [⟨value, place, spelling⟩] = .ok (.date instant) := by
  rcases isDate with rfl | rfl
  all_goals
    simp only [build, List.getElem?_cons_zero, Option.getD_some, buildDate, present, found]
    rfl

theorem build_date_none {value : Value} (present : value.isAbsent = false)
    (missed : instant? value = none) :
    date.build call [⟨value, place, spelling⟩] = .error (.misuse (.badInstant "Date") place) := by
  simp only [build, List.getElem?_cons_zero, Option.getD_some, buildDate, present, missed]
  rfl

theorem natBelow?_number {number : Double} {bound whole : Nat} (small : whole < bound)
    (read : number.toInt? = some (whole : Int)) : natBelow? bound (.number number) = some whole := by
  simp only [natBelow?, read]
  exact if_pos small

theorem build_timestamp {first second : Value} {seconds increment : Nat}
    (firstRead : natBelow? (2 ^ 32) first = some seconds)
    (secondRead : natBelow? (2 ^ 32) second = some increment) :
    timestamp.build call [⟨first, place, spelling⟩, ⟨second, otherPlace, otherSpelling⟩] =
      .ok (.timestamp (UInt32.ofNat seconds) (UInt32.ofNat increment)) := by
  simp only [build, List.getElem?_cons_zero, List.getElem?_cons_succ, Option.getD_some,
    buildTimestamp, timestampPart, firstRead, secondRead]
  rfl

theorem build_binary {first : Value} (data : Binary)
    (read : natBelow? 256 first = some data.subtype.toNat) :
    binary.build call [⟨first, place, spelling⟩, ⟨.string data.base64, otherPlace, otherSpelling⟩] =
      .ok (.binary data) := by
  simp only [build, List.getElem?_cons_zero, List.getElem?_cons_succ, Option.getD_some, buildBinary,
    read, UInt8.ofNat_toNat, Binary.ofBase64?, data.decodes, dite_true]

end Constructor

end DocShell
