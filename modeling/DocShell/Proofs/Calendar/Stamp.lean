import DocShell.Calendar.Reading
import DocShell.Calendar.Date
import DocShell.Proofs.Calendar.Years
import DocShell.Proofs.Number.Spelling

namespace DocShell.Calendar

/-! # Dates and times of day as text

A stamp is a date and a time of day with fields of fixed width, and may end in its
zone. Each form that is tried on a stamp takes it just if the stamp has the parts that
the form asks for, and all that take it agree on the instant. -/

structure DateText where
  year : Nat
  month : Nat
  day : Nat
  year_le : year ≤ 9999
  month_pos : 1 ≤ month
  day_pos : 1 ≤ day
  day_le : day ≤ Date.monthLength year month

namespace DateText

def text (date : DateText) : List Char :=
  Text.padded 4 date.year ++ '-' :: (Text.padded 2 date.month ++ '-' :: Text.padded 2 date.day)

def days (date : DateText) : Int :=
  Date.firstDay date.year + Date.daysBeforeMonth date.year date.month + (date.day - 1)

end DateText

structure SecondText where
  second : Nat
  fraction : List Char
  second_le : second ≤ 59
  isDigit : ∀ digit ∈ fraction, digit.isDigit = true

namespace SecondText

def fractionText (seconds : SecondText) : List Char :=
  if seconds.fraction = [] then [] else '.' :: seconds.fraction

def text (seconds : SecondText) : List Char :=
  ':' :: (Text.padded 2 seconds.second ++ seconds.fractionText)

def fractionMilliseconds (seconds : SecondText) : Nat :=
  Text.natOfDigits seconds.fraction * 1000 / 10 ^ seconds.fraction.length

end SecondText

/-- A time of day, down to minutes or to a fraction of a second. -/
structure TimeText where
  hour : Nat
  minute : Nat
  seconds : Option SecondText
  hour_le : hour ≤ 23
  minute_le : minute ≤ 59

namespace TimeText

def secondsText (time : TimeText) : List Char := time.seconds.elim [] SecondText.text

def text (time : TimeText) : List Char :=
  Text.padded 2 time.hour ++ ':' :: (Text.padded 2 time.minute ++ time.secondsText)

def clock (time : TimeText) : Clock :=
  ⟨time.hour, time.minute, time.seconds.elim 0 (·.second),
    time.seconds.elim 0 (·.fractionMilliseconds)⟩

def milliseconds (time : TimeText) : Nat :=
  time.hour * 3600000 + time.minute * 60000 +
    time.seconds.elim 0 fun seconds => seconds.second * 1000 + seconds.fractionMilliseconds

end TimeText

structure OffsetText where
  sign : Sign
  hours : Nat
  minutes : Nat
  hours_le : hours ≤ 23
  minutes_le : minutes ≤ 59

namespace OffsetText

def text (offset : OffsetText) : List Char :=
  offset.sign.character :: (Text.padded 2 offset.hours ++ ':' :: Text.padded 2 offset.minutes)

def factor (offset : OffsetText) : Int :=
  match offset.sign with
  | .plus => 1
  | .minus => -1

def ahead (offset : OffsetText) : Int := offset.factor * (60 * offset.hours + offset.minutes)

end OffsetText

inductive ZoneText
  | missing
  | letter
  | offset (offset : OffsetText)

namespace ZoneText

def text : ZoneText → List Char
  | .missing => []
  | .letter => ['Z']
  | .offset zone => zone.text

def isGiven : ZoneText → Bool
  | .missing => false
  | _ => true

def isOffset : ZoneText → Bool
  | .offset _ => true
  | _ => false

def ahead : ZoneText → Int
  | .offset zone => zone.ahead
  | _ => 0

end ZoneText

structure Stamp where
  date : DateText
  time : TimeText
  zone : ZoneText

namespace Stamp

def text (stamp : Stamp) : List Char :=
  stamp.date.text ++ 'T' :: (stamp.time.text ++ stamp.zone.text)

def instant (stamp : Stamp) : Int :=
  stamp.date.days * dayLength + stamp.time.milliseconds - stamp.zone.ahead * 60000

end Stamp

/-! ## Instants -/

theorem DateText.ofParts?_eq (date : DateText) :
    Date.ofParts? date.year date.month date.day = some ⟨date.year, date.month, date.day⟩ := by
  have year := date.year_le
  refine Date.ofParts?_eq ?_ ?_ date.month_pos date.day_pos date.day_le
  · rw [Date.firstYear]
    omega
  · rw [Date.lastYear]
    omega

theorem DateText.days_eq (date : DateText) :
    (⟨date.year, date.month, date.day⟩ : Date).toDays = date.days := by
  simp only [Date.toDays, days, Date.firstDay_eq, Date.daysBeforeMonth]
  omega

theorem TimeText.isValid_clock (time : TimeText) : time.clock.isValid = true := by
  have second : time.clock.second ≤ 60 := by
    rw [clock]
    cases time.seconds with
    | none => exact Nat.zero_le 60
    | some seconds => exact Nat.le_succ_of_le seconds.second_le
  simp only [Clock.isValid, Bool.and_eq_true, decide_eq_true_eq]
  exact ⟨⟨time.hour_le, time.minute_le⟩, second⟩

theorem OffsetText.natAbs_ahead_lt (offset : OffsetText) : offset.ahead.natAbs < 1440 := by
  have hours := offset.hours_le
  have minutes := offset.minutes_le
  rw [ahead, factor]
  split <;> omega

theorem ZoneText.natAbs_ahead_lt (zone : ZoneText) : zone.ahead.natAbs < 1440 := by
  cases zone with
  | offset offset => exact offset.natAbs_ahead_lt
  | _ => decide

theorem DateText.days_bounds (date : DateText) :
    Date.daysBeforeYear 0 ≤ date.days + Date.epochDay ∧
      date.days + Date.epochDay < Date.daysBeforeYear 10000 := by
  have year := date.year_le
  have day := date.day_pos
  have first := Date.daysBeforeYear_sub (show 0 ≤ (date.year : Int) by omega)
  have last := Date.daysBeforeYear_sub (show (date.year : Int) + 1 ≤ 10000 by omega)
  have inside := Date.daysBeforeMonth_add_le day date.day_le
  rw [days, Date.firstDay_eq]
  omega

/-- A date with a year of four digits and its neighbours are far from both ends of the
calendar. -/
theorem DateText.year_ofDays (date : DateText) {days : Int} (before : date.days - 1 ≤ days)
    (behind : days ≤ date.days + 1) :
    Date.firstYear ≤ (Date.ofDays days).year ∧ (Date.ofDays days).year ≤ Date.lastYear := by
  have bounds := date.days_bounds
  have first : Date.daysBeforeYear Date.firstYear + 1 ≤ Date.daysBeforeYear 0 := by decide
  have last : Date.daysBeforeYear 10000 + 1 ≤ Date.daysBeforeYear (Date.lastYear + 1) := by decide
  have year : (Date.ofDays days).year = Date.yearOfDay (days + Date.epochDay) := rfl
  rw [year]
  constructor
  · refine Date.le_yearOfDay_iff.mpr ?_
    omega
  · refine Int.le_of_lt_add_one (Int.not_le.mp fun beyond => ?_)
    have reached := Date.le_yearOfDay_iff.mp beyond
    omega

theorem TimeText.milliseconds_clock (time : TimeText) :
    time.milliseconds = time.clock.hour * 3600000 + time.clock.minute * 60000 +
      (time.clock.second * 1000 + time.clock.millisecond) := by
  rw [milliseconds, clock]
  cases time.seconds <;> simp

/-- With a year of four digits, no zone leads out of the calendar. -/
theorem Stamp.instant?_eq (stamp : Stamp) :
    instant? ⟨stamp.date.year, stamp.date.month, stamp.date.day⟩ stamp.time.clock
      stamp.zone.ahead = some stamp.instant := by
  have zone := stamp.zone.natAbs_ahead_lt
  have valid := stamp.time.isValid_clock
  have clock := valid
  simp only [Clock.isValid, Bool.and_eq_true, decide_eq_true_eq] at clock
  simp only [instant?, stamp.date.days_eq]
  generalize minutes : stamp.date.days * 1440 + stamp.time.clock.hour * 60 +
    stamp.time.clock.minute - stamp.zone.ahead = universal
  have years := stamp.date.year_ofDays (show _ ≤ universal / 1440 by omega) (by omega)
  rw [if_pos ⟨valid, years⟩, instant, dayLength, stamp.time.milliseconds_clock, Option.some.injEq]
  omega

end DocShell.Calendar
