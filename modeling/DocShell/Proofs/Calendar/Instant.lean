import DocShell.Proofs.Calendar.Forms

namespace DocShell.Calendar

/-! # Instants read back

A written instant is a stamp of it in universal time, and every stamp is read. -/

namespace Stamp

structure Full (stamp : Stamp) : Prop where
  universal : stamp.zone = .letter
  precise : ∃ seconds, stamp.time.seconds = some seconds ∧ seconds.fraction.length = 3

end Stamp

theorem exists_dateText {days : Int} (first : 0 ≤ (Date.ofDays days).year)
    (last : (Date.ofDays days).year ≤ 9999) :
    ∃ date : DateText, (⟨date.year, date.month, date.day⟩ : Date) = Date.ofDays days ∧
      date.days = days := by
  rcases Date.ofDays_bounds days with ⟨index, length, dayOfMonth, equal, position, small, _⟩
  have back := Date.toDays_ofDays days
  rw [equal] at first last back ⊢
  dsimp only at first last
  generalize Date.yearOfDay (days + Date.epochDay) = year at *
  have same : (year.toNat : Int) = year := Int.toNat_of_nonneg first
  have inside : dayOfMonth + 1 ≤ Date.monthLength year.toNat (1 + index) := by
    rw [same, Date.monthLength, Nat.add_sub_cancel_left, position]
    exact small
  let date : DateText := ⟨year.toNat, 1 + index, dayOfMonth + 1, by omega, Nat.le_add_right _ _,
    Nat.le_add_left _ _, inside⟩
  have parts : (⟨date.year, date.month, date.day⟩ : Date) = ⟨year, 1 + index, dayOfMonth + 1⟩ := by
    rw [same]
  exact ⟨date, parts, by rw [← date.days_eq, parts, back]⟩

/-- A time of day is written down to its milliseconds. -/
theorem exists_timeText {part : Nat} (inside : part < 86400000) :
    ∃ time : TimeText, ∃ seconds, time.seconds = some seconds ∧ seconds.fraction.length = 3 ∧
      time.text = Text.padded 2 (part / 3600000) ++ ':' :: (Text.padded 2 (part / 60000 % 60) ++
        ':' :: (Text.padded 2 (part / 1000 % 60) ++ '.' :: Text.padded 3 (part % 1000))) ∧
      time.milliseconds = part := by
  have length : (Text.padded 3 (part % 1000)).length = 3 :=
    Text.length_padded (by decide) (Nat.mod_lt _ (by decide))
  have nonempty : Text.padded 3 (part % 1000) ≠ [] := by
    intro empty
    rw [empty] at length
    cases length
  let seconds : SecondText := ⟨part / 1000 % 60, Text.padded 3 (part % 1000), by omega,
    fun _ => Text.isDigit_of_mem_padded⟩
  let time : TimeText := ⟨part / 3600000, part / 60000 % 60, some seconds, by omega, by omega⟩
  refine ⟨time, seconds, rfl, length, ?_, ?_⟩
  · simp only [TimeText.text, TimeText.secondsText, SecondText.text, SecondText.fractionText, time,
      seconds, Option.elim, nonempty, if_false]
  · simp only [TimeText.milliseconds, SecondText.fractionMilliseconds, time, seconds, Option.elim,
      length, Text.natOfDigits_padded]
    omega

/-! ## Years -/

def InYear (instant year : Int) : Prop :=
  Date.firstDay year * dayLength ≤ instant ∧ instant < Date.firstDay (year + 1) * dayLength

theorem inYear_iff {instant year : Int} :
    InYear instant year ↔ (Date.ofDays (instant / dayLength)).year = year := by
  have reached (year : Int) : Date.firstDay year * dayLength ≤ instant ↔
      year ≤ (Date.ofDays (instant / dayLength)).year := by
    change _ ↔ year ≤ Date.yearOfDay (instant / dayLength + Date.epochDay)
    rw [Date.le_yearOfDay_iff, Date.firstDay_eq,
      ← Int.le_ediv_iff_mul_le (show 0 < dayLength by decide)]
    omega
  rw [InYear, reached, ← Int.not_le, reached]
  omega

/-- An instant is written as a stamp of it just if its year has four digits. -/
theorem write?_of_inYear {instant year : Int} (inside : InYear instant year) :
    (0 ≤ year ∧ year ≤ 9999 → ∃ stamp : Stamp, stamp.Full ∧ stamp.date.year = year ∧
      stamp.instant = instant ∧ write? instant = some stamp.text) ∧
      (¬(0 ≤ year ∧ year ≤ 9999) → write? instant = none) := by
  rcases inYear_iff.mp inside with rfl
  constructor
  · rintro ⟨first, last⟩
    have split : instant / dayLength * dayLength + (instant % dayLength).toNat = instant ∧
        (instant % dayLength).toNat < 86400000 := by
      rw [dayLength]
      omega
    rcases exists_dateText first last with ⟨date, parts, days⟩
    rcases exists_timeText split.2 with ⟨time, seconds, found, precise, text, milliseconds⟩
    refine ⟨⟨date, time, .letter⟩, ⟨rfl, seconds, found, precise⟩, ?_, ?_, ?_⟩
    · rw [← parts]
    · simp only [Stamp.instant, days, milliseconds, ZoneText.ahead, Int.zero_mul, Int.sub_zero,
        split.1]
    · simp only [write?]
      rw [if_pos ⟨first, last⟩, ← parts]
      simp [Stamp.text, DateText.text, text, ZoneText.text]
  · exact fun other => if_neg other

/-- A written instant reads back as that instant. -/
theorem read?_of_write? {instant : Int} {text : List Char} (written : write? instant = some text) :
    read? text = some instant := by
  have inside := inYear_iff.mpr (rfl : (Date.ofDays (instant / dayLength)).year = _)
  rcases write?_of_inYear inside with ⟨stamped, other⟩
  by_cases year : 0 ≤ (Date.ofDays (instant / dayLength)).year ∧
      (Date.ofDays (instant / dayLength)).year ≤ 9999
  · rcases stamped year with ⟨stamp, _, _, same, text⟩
    cases written.symm.trans text
    rw [stamp.read?_text, same]
  · cases written.symm.trans (other year)

/-! ## The range of instants

The years of the calendar end well before the largest instant that a number may
give, so whatever is read from text is within that limit. -/

theorem natAbs_le_of_instant? {date : Date} {clock : Clock} {offset instant : Int}
    (fraction : clock.millisecond < 1000) (found : instant? date clock offset = some instant) :
    instant.natAbs ≤ instantLimit := by
  simp only [instant?] at found
  generalize date.toDays * 1440 + clock.hour * 60 + clock.minute - offset = minutes at found
  split at found
  · rename_i bounds
    rcases bounds with ⟨valid, first, last⟩
    cases found
    simp only [Clock.isValid, Bool.and_eq_true, decide_eq_true_eq] at valid
    have low := Date.daysBeforeYear_yearOfDay_le (minutes / 1440 + Date.epochDay)
    have high := Date.lt_daysBeforeYear_yearOfDay (minutes / 1440 + Date.epochDay)
    simp only [Date.ofDays] at first last
    generalize Date.yearOfDay (minutes / 1440 + Date.epochDay) = year at low high first last
    simp only [Date.daysBeforeYear, Date.epochDay, Date.firstYear, Date.lastYear] at low high first last
    rw [instantLimit]
    omega
  · cases found

theorem milliseconds_lt {fraction : List Char}
    (all : ∀ digit ∈ fraction, digit.isDigit = true) : milliseconds fraction < 1000 := by
  have digits : ∀ digit ∈ (fraction ++ ['0', '0', '0']).take 3, digit.isDigit = true := by
    intro digit member
    rcases List.mem_append.mp (List.mem_of_mem_take member) with inner | zero
    · exact all digit inner
    · simp only [List.mem_cons, List.not_mem_nil, or_false, or_self] at zero
      rw [zero]
      rfl
  have width : ((fraction ++ ['0', '0', '0']).take 3).length = 3 := by
    rw [List.length_take, List.length_append]
    exact Nat.min_eq_left (Nat.le_add_left _ _)
  have bound := Text.natOfDigits_lt digits
  rwa [width] at bound

theorem fractionField_lt {text rest : List Char} {fraction : Nat}
    (found : fractionField text = some (fraction, rest)) : fraction < 1000 := by
  unfold fractionField at found
  split at found
  · simp only at found
    split at found
    · cases found
    · cases found
      exact milliseconds_lt (List.all_eq_true.mp List.all_takeWhile)
  · cases found
    decide

theorem clockFields_lt {seconds : Bool} {text rest : List Char} {clock : Clock}
    (found : clockFields seconds text = some (clock, rest)) : clock.millisecond < 1000 := by
  simp only [clockFields, Option.bind_eq_bind, Option.bind_eq_some_iff] at found
  rcases found with ⟨hour, _, _, _, minute, _, tail⟩
  split at tail
  · simp only [Option.bind_eq_some_iff] at tail
    rcases tail with ⟨_, _, second, _, fraction, taken, equal⟩
    cases equal
    exact fractionField_lt taken
  · cases tail
    exact Nat.zero_lt_succ _

theorem natAbs_le_of_standardForm? {text : List Char} {instant : Int}
    (found : standardForm? text = some instant) : instant.natAbs ≤ instantLimit := by
  rw [standardForm?] at found
  -- What stands before the fraction has no influence on the bound.
  iterate 11 rcases Option.bind_eq_some_iff.mp found with ⟨_, _, found⟩
  rcases Option.bind_eq_some_iff.mp found with ⟨fraction, taken, found⟩
  rcases Option.bind_eq_some_iff.mp found with ⟨_, _, found⟩
  have small := fractionField_lt taken
  split at found
  · exact natAbs_le_of_instant? small found
  · exact natAbs_le_of_instant? small found
  · iterate 5 rcases Option.bind_eq_some_iff.mp found with ⟨_, _, found⟩
    split at found
    · exact natAbs_le_of_instant? small found
    · cases found

theorem natAbs_le_of_offsetForm? {seconds : Bool} {text : List Char} {instant : Int}
    (found : offsetForm? seconds text = some instant) : instant.natAbs ≤ instantLimit := by
  simp only [offsetForm?, Option.bind_eq_bind, Option.bind_eq_some_iff] at found
  rcases found with ⟨_, _, _, _, clock, taken, _, _, _, _, _, _, _, _, found⟩
  have small := clockFields_lt taken
  split at found
  · exact natAbs_le_of_instant? small found
  · cases found

theorem natAbs_le_of_localForm? {letter seconds : Bool} {text : List Char} {instant : Int}
    (found : localForm? letter seconds text = some instant) : instant.natAbs ≤ instantLimit := by
  have behind {date : Date} {text : List Char} (found : ((clockFields seconds text).bind fun clock =>
      if clock.2 = [] then instant? date clock.1 0 else none) = some instant) :
      instant.natAbs ≤ instantLimit := by
    rcases Option.bind_eq_some_iff.mp found with ⟨clock, taken, found⟩
    split at found
    · exact natAbs_le_of_instant? (clockFields_lt taken) found
    · cases found
  rcases Option.bind_eq_some_iff.mp found with ⟨date, _, found⟩
  cases letter with
  | false => exact behind found
  | true =>
      rcases Option.bind_eq_some_iff.mp found with ⟨text, _, found⟩
      exact behind found

theorem natAbs_le_of_dateForm? {text : List Char} {instant : Int}
    (found : dateForm? text = some instant) : instant.natAbs ≤ instantLimit := by
  have midnight {date : Option Date}
      (found : (date.bind fun date => instant? date .midnight 0) = some instant) :
      instant.natAbs ≤ instantLimit := by
    rcases Option.bind_eq_some_iff.mp found with ⟨date, _, found⟩
    exact natAbs_le_of_instant? (by decide) found
  simp only [dateForm?] at found
  split at found
  · rcases Option.bind_eq_some_iff.mp found with ⟨year, _, found⟩
    exact midnight found
  split at found
  · rcases Option.bind_eq_some_iff.mp found with ⟨year, _, found⟩
    rcases Option.bind_eq_some_iff.mp found with ⟨month, _, found⟩
    exact midnight found
  · rcases Option.bind_eq_some_iff.mp found with ⟨date, _, found⟩
    split at found
    · exact midnight found
    · cases found

/-- An instant that is read from text is one that a number may give. -/
theorem natAbs_le_of_read? {text : List Char} {instant : Int}
    (found : read? text = some instant) : instant.natAbs ≤ instantLimit := by
  simp only [read?, Option.orElse_eq_orElse, Option.orElse_eq_or, Option.or_eq_some_iff] at found
  rcases found with found | ⟨_, found | ⟨_, found | ⟨_, found | ⟨_, found | ⟨_, found | ⟨_, found |
    ⟨_, found⟩⟩⟩⟩⟩⟩⟩
  · exact natAbs_le_of_standardForm? found
  · exact natAbs_le_of_offsetForm? found
  · exact natAbs_le_of_offsetForm? found
  · exact natAbs_le_of_localForm? found
  · exact natAbs_le_of_localForm? found
  · exact natAbs_le_of_localForm? found
  · exact natAbs_le_of_localForm? found
  · exact natAbs_le_of_dateForm? found

end DocShell.Calendar
