import DocShell.Text.Digits

namespace DocShell

/-! # Calendar dates

The Gregorian calendar carried on in both directions, with a year zero. Days are
counted from the first of January of year zero, and from the first of January
1970 where instants are concerned. -/

structure Date where
  year : Int
  month : Nat
  day : Nat
deriving DecidableEq, Repr

namespace Date

def isLeap (year : Int) : Bool :=
  year % 4 = 0 && (year % 100 ≠ 0 || year % 400 = 0)

def monthLengths (leap : Bool) : List Nat :=
  [31, if leap then 29 else 28, 31, 30, 31, 30, 31, 31, 30, 31, 30, 31]

def daysOf (lengths : List Nat) : Nat := lengths.foldr (· + ·) 0

def firstYear : Int := -262143
def lastYear : Int := 262142

def ofParts? (year : Int) (month day : Nat) : Option Date :=
  match (monthLengths (isLeap year))[month - 1]? with
  | some length =>
      if firstYear ≤ year ∧ year ≤ lastYear ∧ 1 ≤ month ∧ 1 ≤ day ∧ day ≤ length then
        some ⟨year, month, day⟩
      else none
  | none => none

/-- The days of all years from year zero up to, but without, the given one. Of
the years before it, every fourth is a leap year, save the centuries that are
not multiples of four hundred. -/
def daysBeforeYear (year : Int) : Int :=
  365 * year + (year + 3) / 4 - (year + 99) / 100 + (year + 399) / 400

def epochDay : Int := 719528

example : daysBeforeYear 1970 = epochDay := by decide

def toDays (date : Date) : Int :=
  daysBeforeYear date.year +
    daysOf ((monthLengths (isLeap date.year)).take (date.month - 1)) + (date.day - 1) - epochDay

/-- The year that contains a day counted from year zero. The mean length of a
year gives it up to one year. -/
def yearOfDay (day : Int) : Int :=
  let guess := 400 * day / 146097
  if day < daysBeforeYear guess then guess - 1
  else if daysBeforeYear (guess + 1) ≤ day then guess + 1
  else guess

theorem daysBeforeYear_yearOfDay_le (day : Int) : daysBeforeYear (yearOfDay day) ≤ day := by
  simp only [yearOfDay]
  split
  · simp only [daysBeforeYear] at *
    omega
  · split
    · assumption
    · omega

theorem lt_daysBeforeYear_yearOfDay (day : Int) :
    day < daysBeforeYear (yearOfDay day + 1) := by
  simp only [yearOfDay]
  split
  · rw [Int.sub_add_cancel]
    assumption
  · split
    · simp only [daysBeforeYear] at *
      omega
    · omega

/-- The month and the day in it of a day of the year, both counted from zero on
the way in and from one on the way out. -/
def monthAndDay : (lengths : List Nat) → (month dayOfYear : Nat) → Nat × Nat
  | [], month, day => (month, day + 1)
  | length :: rest, month, day =>
      if day < length then (month, day + 1) else monthAndDay rest (month + 1) (day - length)

def ofDays (days : Int) : Date :=
  let day := days + epochDay
  let year := yearOfDay day
  let (month, dayOfMonth) :=
    monthAndDay (monthLengths (isLeap year)) 1 (day - daysBeforeYear year).toNat
  ⟨year, month, dayOfMonth⟩

example : ofDays 0 = ⟨1970, 1, 1⟩ ∧ ofDays (-1) = ⟨1969, 12, 31⟩ := by decide

end Date

namespace Calendar

/-! ## Writing instants -/

def dayLength : Int := 86400000

/-- An instant as `YYYY-MM-DDTHH:MM:SS.mmmZ`, if its year has four digits. -/
def write? (instant : Int) : Option (List Char) :=
  let date := Date.ofDays (instant / dayLength)
  let rest := (instant % dayLength).toNat
  if 0 ≤ date.year ∧ date.year ≤ 9999 then
    some (Text.padded 4 date.year.toNat ++ '-' :: Text.padded 2 date.month ++
      '-' :: Text.padded 2 date.day ++ 'T' :: Text.padded 2 (rest / 3600000) ++
      ':' :: Text.padded 2 (rest / 60000 % 60) ++ ':' :: Text.padded 2 (rest / 1000 % 60) ++
      '.' :: Text.padded 3 (rest % 1000) ++ ['Z'])
  else none

example : write? (-1) = some "1969-12-31T23:59:59.999Z".toList := by decide +kernel

end Calendar

end DocShell
