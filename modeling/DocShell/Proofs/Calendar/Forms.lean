import DocShell.Proofs.Calendar.Stamp
import DocShell.Proofs.Text.Digits
import DocShell.Proofs.Text.Runs

namespace DocShell.Calendar

/-! # Reading stamps

The forms are tried in turn. What a stamp has behind its minutes decides which of them
take it. -/

/-! ## Fields -/

theorem bind_of_eq_some {α β : Type} {first : Option α} {item : α} (found : first = some item)
    (next : α → Option β) : (first >>= next) = next item := by
  rw [found]
  rfl

theorem exists_padded_eq (width number : Nat) :
    ∃ first more, Text.padded width number = first :: more ∧ first.isDigit = true := by
  cases text : Text.padded width number with
  | nil =>
      rw [Text.padded] at text
      exact absurd (List.append_eq_nil_iff.mp text).2 (Text.ofNat_ne_nil number)
  | cons first more =>
      exact ⟨first, more, rfl, Text.isDigit_of_mem_padded (text ▸ List.mem_cons_self)⟩

theorem leaves_padded (width number : Nat) (rest : List Char) :
    Text.Leaves Text.isBlank (Text.padded width number ++ rest) := by
  rcases exists_padded_eq width number with ⟨first, more, equal, digit⟩
  rw [equal]
  exact Text.leaves_cons (Text.forall_ascii
    (fun character => character.isDigit = true → Text.isBlank character = false)
    (by decide +kernel) (Text.toNat_lt_of_isDigit digit) digit) _

theorem digits_padded {width number : Nat} (positive : 0 < width) (fits : number < 10 ^ width)
    (rest : List Char) : digits width (Text.padded width number ++ rest) = some (number, rest) := by
  have length := Text.length_padded positive fits
  have all : (Text.padded width number).all Char.isDigit = true :=
    List.all_eq_true.mpr fun _ => Text.isDigit_of_mem_padded
  simp only [digits, List.take_left' length, List.drop_left' length, length, all,
    Text.natOfDigits_padded, and_self, if_true]

theorem digits_padded_nil {width number : Nat} (positive : 0 < width) (fits : number < 10 ^ width) :
    digits width (Text.padded width number) = some (number, []) := by
  simpa using digits_padded positive fits []

theorem field_padded {width number : Nat} (positive : 0 < width) (fits : number < 10 ^ width)
    (rest : List Char) : field width (Text.padded width number ++ rest) = some (number, rest) := by
  have length := Text.length_padded positive fits
  have digits : ∀ digit ∈ Text.padded width number, digit.isDigit = true :=
    fun _ => Text.isDigit_of_mem_padded
  have nonempty : Text.padded width number ≠ [] := by
    intro empty
    rw [empty] at length
    exact Nat.ne_of_lt positive length
  simp only [field, Text.dropWhile_of_leaves (leaves_padded width number rest),
    List.takeWhile_append_of_pos digits, List.take_left' length, nonempty, if_false, length,
    List.drop_left' length, Text.natOfDigits_padded]

/-- The first three digits of a fraction are its whole milliseconds. -/
theorem milliseconds_eq {fraction : List Char}
    (isDigit : ∀ digit ∈ fraction, digit.isDigit = true) :
    milliseconds fraction = Text.natOfDigits fraction * 1000 / 10 ^ fraction.length := by
  have zeros : ['0', '0', '0'] = List.replicate 3 '0' := rfl
  rw [milliseconds]
  rcases Nat.lt_or_ge fraction.length 3 with short | long
  · have thousand : 1000 = 10 ^ (3 - fraction.length) * 10 ^ fraction.length := by
      rw [← Nat.pow_add, Nat.sub_add_cancel (Nat.le_of_lt short)]
    rw [zeros, List.take_append, List.take_of_length_le (Nat.le_of_lt short), List.take_replicate,
      Nat.min_eq_left (Nat.sub_le 3 _), Text.natOfDigits_append_zeros, thousand, ← Nat.mul_assoc,
      Nat.mul_div_cancel _ (Nat.pow_pos (by decide))]
  · have front : (fraction.take 3).length = 3 := List.length_take_of_le long
    have back := Text.natOfDigits_lt fun digit (member : digit ∈ fraction.drop 3) =>
      isDigit digit (List.mem_of_mem_drop member)
    rw [List.take_append_of_le_length long]
    conv_rhs => rw [← List.take_append_drop 3 fraction]
    rw [Text.natOfDigits_append, List.length_append, front, Nat.pow_add, Nat.mul_comm _ 1000]
    change _ = 1000 * _ / (1000 * _)
    rw [Nat.mul_div_mul_left _ _ (by decide : 0 < 1000), Nat.mul_comm _ (10 ^ _),
      Nat.mul_add_div (Nat.pow_pos (by decide)), Nat.div_eq_of_lt back, Nat.add_zero]

/-- What can stand behind a time of day without being taken for a part of it. -/
def EndsTime (rest : List Char) : Prop :=
  Text.Leaves (fun character => character.isDigit || character = '.' || character = ':') rest

theorem mark_eq_none {rest : List Char} (ends : EndsTime rest) : mark ':' rest = none := by
  cases rest with
  | nil => rfl
  | cons first rest =>
      refine if_neg ?_
      rintro rfl
      cases ends ':' rfl

theorem ZoneText.endsTime (zone : ZoneText) : EndsTime zone.text := by
  rcases zone with _ | _ | ⟨_ | _, _⟩
  · exact Text.leaves_nil _
  · exact Text.leaves_cons rfl _
  · exact Text.leaves_cons rfl _
  · exact Text.leaves_cons rfl _

theorem SecondText.fractionField_text (seconds : SecondText) {rest : List Char}
    (ends : EndsTime rest) :
    fractionField (seconds.fractionText ++ rest) = some (seconds.fractionMilliseconds, rest) := by
  have leaves : Text.Leaves Char.isDigit rest := ends.of_imp fun character digit => by simp [digit]
  rw [fractionText, fractionMilliseconds, ← milliseconds_eq seconds.isDigit]
  by_cases empty : seconds.fraction = []
  · rw [if_pos empty, empty, List.nil_append, fractionField]
    · rfl
    · rintro behind rfl
      cases ends '.' rfl
  · rw [if_neg empty, List.cons_append]
    simp only [fractionField, Text.takeWhile_run seconds.isDigit leaves,
      Text.dropWhile_run seconds.isDigit leaves, empty, if_false]

namespace DateText

theorem text_append (date : DateText) (rest : List Char) :
    date.text ++ rest = Text.padded 4 date.year ++ '-' :: (Text.padded 2 date.month ++
      '-' :: (Text.padded 2 date.day ++ rest)) := by
  simp [text]

/-- The fields have no more digits than their width. -/
theorem fits (date : DateText) :
    date.year < 10 ^ 4 ∧ date.month < 10 ^ 2 ∧ date.day < 10 ^ 2 := by
  have year := date.year_le
  have inside := date.day_le
  have positive := date.day_pos
  have longest : ∀ leap, ∀ length ∈ Date.monthLengths leap, length ≤ 31 := by decide
  rw [Date.monthLength] at inside
  cases found : (Date.monthLengths (Date.isLeap date.year))[date.month - 1]? with
  | none =>
      rw [found, Option.getD_none] at inside
      omega
  | some length =>
      have bound := longest _ length (List.mem_of_getElem? found)
      have months : date.month - 1 < 12 := (List.getElem?_eq_some_iff.mp found).1
      rw [found, Option.getD_some] at inside
      omega

theorem dateFields_text (date : DateText) (rest : List Char) :
    dateFields (date.text ++ rest) = some (⟨date.year, date.month, date.day⟩, rest) := by
  rcases date.fits with ⟨year, month, day⟩
  have yearRead (rest : List Char) :
      yearField (Text.padded 4 date.year ++ rest) = some ((date.year : Int), rest) := by
    have read := field_padded (by decide) year rest
    rw [yearField, Text.dropWhile_of_leaves (leaves_padded 4 date.year rest)]
    rcases exists_padded_eq 4 date.year with ⟨first, more, equal, digit⟩
    rw [equal, List.cons_append] at read ⊢
    split
    · rename_i same
      cases same
      cases digit
    · rename_i same
      cases same
      cases digit
    · rw [read, Option.map_some]
  rw [text_append]
  refine (bind_of_eq_some (yearRead _) _).trans ?_
  refine (bind_of_eq_some rfl _).trans ?_
  refine (bind_of_eq_some (field_padded (by decide) month _) _).trans ?_
  refine (bind_of_eq_some rfl _).trans ?_
  refine (bind_of_eq_some (field_padded (by decide) day _) _).trans ?_
  exact bind_of_eq_some date.ofParts?_eq _

end DateText

namespace TimeText

theorem text_append (time : TimeText) (rest : List Char) :
    time.text ++ rest = Text.padded 2 time.hour ++ ':' :: (Text.padded 2 time.minute ++
      (time.secondsText ++ rest)) := by
  simp [text]

theorem fits (time : TimeText) : time.hour < 10 ^ 2 ∧ time.minute < 10 ^ 2 := by
  have hour := time.hour_le
  have minute := time.minute_le
  omega

/-- Whether a time of day is read depends on whether its seconds are asked for. Seconds
that are not asked for are left. -/
theorem clockFields_text (time : TimeText) (asked : Bool) {rest : List Char}
    (ends : EndsTime rest) :
    clockFields asked (time.text ++ rest) =
      match asked, time.seconds with
      | true, none => none
      | false, some seconds => some (⟨time.hour, time.minute, 0, 0⟩, seconds.text ++ rest)
      | _, _ => some (time.clock, rest) := by
  rcases time.fits with ⟨hour, minute⟩
  rw [text_append]
  refine (bind_of_eq_some (field_padded (by decide) hour _) _).trans ?_
  refine (bind_of_eq_some rfl _).trans ?_
  refine (bind_of_eq_some (field_padded (by decide) minute _) _).trans ?_
  rw [secondsText, clock]
  cases time.seconds with
  | none =>
      cases asked with
      | false => rfl
      | true =>
          refine Option.bind_eq_none_iff.mpr fun _ found => ?_
          cases (mark_eq_none ends).symm.trans found
  | some seconds =>
      cases asked with
      | false => rfl
      | true =>
          have second := seconds.second_le
          simp only [Option.elim, SecondText.text, List.cons_append, List.append_assoc]
          refine (bind_of_eq_some rfl _).trans ?_
          refine (bind_of_eq_some (field_padded (by decide) (by omega) _) _).trans ?_
          exact bind_of_eq_some (seconds.fractionField_text ends) _

end TimeText

/-! ## Zones -/

namespace OffsetText

theorem fits (offset : OffsetText) : offset.hours < 10 ^ 2 ∧ offset.minutes < 10 ^ 2 := by
  have hours := offset.hours_le
  have minutes := offset.minutes_le
  omega

theorem offsetOf?_eq (offset : OffsetText) :
    offsetOf? offset.factor offset.hours offset.minutes = some offset.ahead := by
  rw [offsetOf?, if_pos ⟨offset.hours_le, offset.minutes_le⟩, ahead, Int.mul_comm 60]

theorem signField_text (offset : OffsetText) (rest : List Char) :
    signField (offset.sign.character :: rest) = some (offset.factor, rest) := by
  rw [OffsetText.factor]
  cases offset.sign <;> rfl

theorem text_ne (offset : OffsetText) : offset.text ≠ ['Z'] ∧ offset.text ≠ ['z'] := by
  rcases offset with ⟨_ | _, _⟩
  · exact ⟨nofun, nofun⟩
  · exact ⟨nofun, nofun⟩

theorem signField_dropWhile (offset : OffsetText) :
    signField (offset.text.dropWhile Text.isBlank) = some (offset.factor,
      Text.padded 2 offset.hours ++ ':' :: Text.padded 2 offset.minutes) := by
  rcases offset with ⟨_ | _, _⟩ <;> rfl

/-- A colon between the fields of an offset is passed over. -/
theorem digits_dropWhile (offset : OffsetText) :
    digits 2 ((':' :: Text.padded 2 offset.minutes).dropWhile fun mark =>
      mark = ':' || Text.isBlank mark) = some (offset.minutes, []) := by
  have leaves : Text.Leaves (fun mark => mark = ':' || Text.isBlank mark)
      (Text.padded 2 offset.minutes) := by
    rcases exists_padded_eq 2 offset.minutes with ⟨first, more, equal, digit⟩
    rw [equal]
    exact Text.leaves_cons (Text.forall_ascii (fun character => character.isDigit = true →
      (character = ':' || Text.isBlank character) = false) (by decide +kernel)
      (Text.toNat_lt_of_isDigit digit) digit) more
  rw [List.dropWhile_cons_of_pos (by decide), Text.dropWhile_of_leaves leaves]
  exact digits_padded_nil (by decide) offset.fits.2

end OffsetText

def zonedInstant? (date : Date) (clock : Clock) (text : List Char) : Option Int := do
  match text with
  | ['Z'] | ['z'] => instant? date clock 0
  | _ =>
      let (sign, text) ← signField text
      let (hours, text) ← digits 2 text
      let text ← mark ':' text
      let (minutes, text) ← digits 2 text
      let offset ← offsetOf? sign hours minutes
      if text = [] then instant? date clock offset else none

theorem zonedInstant?_text (zone : ZoneText) (date : Date) (clock : Clock) :
    zonedInstant? date clock zone.text =
      if zone.isGiven then instant? date clock zone.ahead else none := by
  cases zone with
  | missing => rfl
  | letter => rfl
  | offset offset =>
      rcases offset.fits with ⟨hours, minutes⟩
      simp only [ZoneText.text, zonedInstant?]
      split
      · rename_i letter
        exact absurd letter offset.text_ne.1
      · rename_i letter
        exact absurd letter offset.text_ne.2
      · refine (bind_of_eq_some (offset.signField_text _) _).trans ?_
        refine (bind_of_eq_some (digits_padded (by decide) hours _) _).trans ?_
        refine (bind_of_eq_some rfl _).trans ?_
        refine (bind_of_eq_some (digits_padded_nil (by decide) minutes) _).trans ?_
        exact bind_of_eq_some offset.offsetOf?_eq _

/-! ## Forms -/

namespace Stamp

theorem standardForm?_text (stamp : Stamp) :
    standardForm? stamp.text =
      if stamp.time.seconds.isSome ∧ stamp.zone.isGiven then some stamp.instant else none := by
  rcases stamp.date.fits with ⟨year, month, day⟩
  rcases stamp.time.fits with ⟨hour, minute⟩
  rw [text, DateText.text_append, TimeText.text_append]
  refine (bind_of_eq_some (digits_padded (by decide) year _) _).trans ?_
  refine (bind_of_eq_some rfl _).trans ?_
  refine (bind_of_eq_some (digits_padded (by decide) month _) _).trans ?_
  refine (bind_of_eq_some rfl _).trans ?_
  refine (bind_of_eq_some (digits_padded (by decide) day _) _).trans ?_
  refine (bind_of_eq_some rfl _).trans ?_
  refine (bind_of_eq_some (digits_padded (by decide) hour _) _).trans ?_
  refine (bind_of_eq_some rfl _).trans ?_
  refine (bind_of_eq_some (digits_padded (by decide) minute _) _).trans ?_
  have zoneEnds := stamp.zone.endsTime
  have instants := stamp.instant?_eq
  rw [TimeText.secondsText]
  rw [TimeText.clock] at instants
  cases found : stamp.time.seconds with
  | none =>
      refine Option.bind_eq_none_iff.mpr fun _ taken => ?_
      cases (mark_eq_none zoneEnds).symm.trans taken
  | some seconds =>
      have second := seconds.second_le
      rw [found] at instants
      simp only [Option.elim, SecondText.text, List.cons_append, List.append_assoc] at instants ⊢
      refine (bind_of_eq_some rfl _).trans ?_
      refine (bind_of_eq_some (digits_padded (by decide) (by omega) _) _).trans ?_
      refine (bind_of_eq_some (seconds.fractionField_text zoneEnds) _).trans ?_
      refine (bind_of_eq_some stamp.date.ofParts?_eq _).trans ?_
      refine (zonedInstant?_text stamp.zone _ _).trans ?_
      rw [instants, Option.isSome_some]
      simp only [true_and]

theorem offsetForm?_text (stamp : Stamp) (asked : Bool) :
    offsetForm? asked stamp.text =
      if asked = stamp.time.seconds.isSome ∧ stamp.zone.isOffset then some stamp.instant
      else none := by
  have instants := stamp.instant?_eq
  have clock := stamp.time.clockFields_text asked stamp.zone.endsTime
  refine (bind_of_eq_some (stamp.date.dateFields_text _) _).trans ?_
  refine (bind_of_eq_some rfl _).trans ?_
  rw [clock]
  cases asked <;> cases stamp.time.seconds
  case false.some seconds => cases stamp.zone <;> rfl
  case true.none => cases stamp.zone <;> rfl
  all_goals
    cases zone : stamp.zone with
    | missing => rfl
    | letter => rfl
    | offset offset =>
        rcases offset.fits with ⟨hours, minutes⟩
        rw [zone] at instants
        refine (bind_of_eq_some offset.signField_dropWhile _).trans ?_
        refine (bind_of_eq_some (digits_padded (by decide) hours _) _).trans ?_
        refine (bind_of_eq_some offset.digits_dropWhile _).trans ?_
        exact (bind_of_eq_some offset.offsetOf?_eq _).trans instants

/-- Without its zone a stamp is read as universal time. -/
theorem localForm?_text (stamp : Stamp) (asked : Bool) :
    localForm? true asked (stamp.date.text ++ 'T' :: stamp.time.text) =
      if asked = stamp.time.seconds.isSome then
        some (stamp.date.days * dayLength + stamp.time.milliseconds)
      else none := by
  have instants := (⟨stamp.date, stamp.time, .missing⟩ : Stamp).instant?_eq
  have clock := stamp.time.clockFields_text asked (Text.leaves_nil _)
  rw [List.append_nil] at clock
  refine (bind_of_eq_some (stamp.date.dateFields_text _) _).trans ?_
  refine (bind_of_eq_some rfl _).trans ?_
  beta_reduce
  rw [clock]
  cases asked <;> cases stamp.time.seconds
  case false.some seconds => rfl
  case true.none => rfl
  all_goals exact instants.trans (by simp [instant, ZoneText.ahead])

/-! ## All forms together -/

theorem mem_front (stamp : Stamp) {character : Char}
    (member : character ∈ stamp.date.text ++ 'T' :: stamp.time.text) :
    character.isDigit = true ∨ character ∈ ['-', 'T', ':', '.'] := by
  have field {width number : Nat} (inside : character ∈ Text.padded width number) :
      character.isDigit = true := Text.isDigit_of_mem_padded inside
  simp only [DateText.text, TimeText.text, TimeText.secondsText, List.mem_append,
    List.mem_cons] at member ⊢
  cases found : stamp.time.seconds with
  | none =>
      simp only [found, Option.elim, List.not_mem_nil, or_false] at member
      grind
  | some seconds =>
      have fraction := seconds.isDigit character
      simp only [found, Option.elim, SecondText.text, SecondText.fractionText, List.mem_append,
        List.mem_cons] at member
      grind

theorem mem_zone (stamp : Stamp) {character : Char} (member : character ∈ stamp.zone.text) :
    character.isDigit = true ∨ character ∈ ['+', '-', ':', 'Z'] := by
  have field {width number : Nat} (inside : character ∈ Text.padded width number) :
      character.isDigit = true := Text.isDigit_of_mem_padded inside
  rcases zone : stamp.zone with _ | _ | ⟨_ | _, _⟩
  all_goals
    rw [zone] at member
    simp only [ZoneText.text, OffsetText.text, Sign.character, List.mem_append,
      List.mem_cons] at member ⊢
    grind

theorem isBlank_of_mem {stamp : Stamp} {character : Char} (member : character ∈ stamp.text) :
    Text.isBlank character = false := by
  have digit (isDigit : character.isDigit = true) : Text.isBlank character = false :=
    Text.forall_ascii (fun character => character.isDigit = true →
      Text.isBlank character = false) (by decide +kernel) (Text.toNat_lt_of_isDigit isDigit) isDigit
  have marks : ∀ mark ∈ ['-', 'T', ':', '.'] ++ ['+', '-', ':', 'Z'], Text.isBlank mark = false :=
    Text.forall_of_all (by decide +kernel)
  rw [text, ← List.cons_append, ← List.append_assoc] at member
  rcases List.mem_append.mp member with front | zone
  · exact (stamp.mem_front front).elim digit fun mark =>
      marks character (List.mem_append_left _ mark)
  · exact (stamp.mem_zone zone).elim digit fun mark =>
      marks character (List.mem_append_right _ mark)

theorem withoutZone_front (stamp : Stamp) :
    withoutZone (stamp.date.text ++ 'T' :: stamp.time.text) =
      stamp.date.text ++ 'T' :: stamp.time.text := by
  refine if_neg fun last => ?_
  rcases stamp.mem_front (List.mem_of_getLast? last) with digit | mark
  · cases digit
  · exact absurd mark (by decide)

theorem withoutZone_letter (text : List Char) : withoutZone (text ++ ['Z']) = text := by
  simp [withoutZone]

theorem trim_text (stamp : Stamp) : Text.trim stamp.text = stamp.text := by
  have leaves {text : List Char} (inside : ∀ character ∈ text, character ∈ stamp.text) :
      Text.Leaves Text.isBlank text := fun character first =>
    isBlank_of_mem (inside character (List.mem_of_mem_head? first))
  rw [Text.trim, Text.dropWhile_of_leaves (leaves fun _ member => member),
    Text.dropWhile_of_leaves (leaves fun _ member => List.mem_reverse.mp member),
    List.reverse_reverse]

/-- Every stamp is read, and without a zone as universal time. -/
theorem read?_text (stamp : Stamp) : read? stamp.text = some stamp.instant := by
  have standard := stamp.standardForm?_text
  have first := stamp.offsetForm?_text false
  have second := stamp.offsetForm?_text true
  have front : stamp.zone.ahead = 0 →
      stamp.instant = stamp.date.days * dayLength + stamp.time.milliseconds := by
    intro universal
    rw [instant, universal, Int.zero_mul, Int.sub_zero]
  simp only [read?, stamp.trim_text, standard, first, second]
  cases zone : stamp.zone with
  | offset offset => cases stamp.time.seconds <;> rfl
  | missing =>
      have same : withoutZone stamp.text = stamp.date.text ++ 'T' :: stamp.time.text := by
        rw [text, zone, ZoneText.text, List.append_nil, withoutZone_front]
      rw [same, localForm?_text, localForm?_text, front (zone ▸ rfl)]
      cases stamp.time.seconds <;> rfl
  | letter =>
      have same : withoutZone stamp.text = stamp.date.text ++ 'T' :: stamp.time.text := by
        rw [text, zone, ZoneText.text, ← List.cons_append, ← List.append_assoc, withoutZone_letter]
      rw [same, localForm?_text, localForm?_text, front (zone ▸ rfl)]
      cases stamp.time.seconds <;> rfl

end Stamp

/-- The zone alone moves the instant of a date and a time of day: nothing behind them is
universal time, as is the letter for it, and an offset is taken off. -/
theorem read?_zones (date : DateText) (time : TimeText) (offset : OffsetText) :
    read? (date.text ++ 'T' :: time.text) =
        some (date.days * dayLength + time.milliseconds) ∧
      read? (date.text ++ 'T' :: time.text ++ ['Z']) =
        some (date.days * dayLength + time.milliseconds) ∧
      read? (date.text ++ 'T' :: time.text ++ offset.text) =
        some (date.days * dayLength + time.milliseconds -
          offset.factor * (60 * offset.hours + offset.minutes) * 60000) := by
  have bare := Stamp.read?_text ⟨date, time, .missing⟩
  have letter := Stamp.read?_text ⟨date, time, .letter⟩
  have behind := Stamp.read?_text ⟨date, time, .offset offset⟩
  simp only [Stamp.text, Stamp.instant, ZoneText.text, ZoneText.ahead, OffsetText.ahead,
    List.append_nil, Int.zero_mul, Int.sub_zero] at bare letter behind
  rw [List.append_assoc, List.append_assoc, List.cons_append, List.cons_append]
  exact ⟨bare, letter, behind⟩

example : read? "1969-12-31T23:59:59.9999-00:30".toList = some 1799999 := by decide +kernel

end DocShell.Calendar
