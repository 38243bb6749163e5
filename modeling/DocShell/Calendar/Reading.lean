import DocShell.Calendar.Date
import DocShell.Text.Blank
import DocShell.Text.Digits

namespace DocShell.Calendar

/-! # Reading instants

An instant is a number of milliseconds since the epoch. Text for one is a date,
mostly with a time of day, and possibly with the offset of its zone; without an
offset it counts as universal time. A reader takes its part from the front of
the text and hands back the rest. -/

/-- The largest distance from the epoch that a date given as a number may have. -/
def instantLimit : Nat := 8640000000000000

/-- A time of day. Second 60 counts as one second past second 59. -/
structure Clock where
  hour : Nat
  minute : Nat
  second : Nat
  millisecond : Nat
deriving DecidableEq, Repr

def Clock.midnight : Clock := ⟨0, 0, 0, 0⟩

def Clock.isValid (clock : Clock) : Bool :=
  clock.hour ≤ 23 && clock.minute ≤ 59 && clock.second ≤ 60

/-- The instant of a date and a time of day at an offset in minutes. Both the
local date and the universal one must lie in the years of the calendar. -/
def instant? (date : Date) (clock : Clock) (offset : Int) : Option Int :=
  let minutes := date.toDays * 1440 + clock.hour * 60 + clock.minute - offset
  let universal := Date.ofDays (minutes / 1440)
  if clock.isValid ∧ Date.firstYear ≤ universal.year ∧ universal.year ≤ Date.lastYear then
    some (minutes * 60000 + clock.second * 1000 + clock.millisecond)
  else none

/-! ## Fields -/

def digits (width : Nat) (text : List Char) : Option (Nat × List Char) :=
  let found := text.take width
  if found.length = width ∧ found.all Char.isDigit then
    some (Text.natOfDigits found, text.drop width)
  else none

/-- One digit up to `width` digits, after any blanks. -/
def field (width : Nat) (text : List Char) : Option (Nat × List Char) :=
  let text := text.dropWhile Text.isBlank
  let found := (text.takeWhile Char.isDigit).take width
  if found = [] then none else some (Text.natOfDigits found, text.drop found.length)

def longField (text : List Char) : Option (Nat × List Char) :=
  let found := text.takeWhile Char.isDigit
  if found = [] then none else some (Text.natOfDigits found, text.dropWhile Char.isDigit)

/-- A year: up to four digits, or any number of them behind a sign. -/
def yearField (text : List Char) : Option (Int × List Char) :=
  match text.dropWhile Text.isBlank with
  | '-' :: rest => (longField rest).map fun (year, rest) => (-(year : Int), rest)
  | '+' :: rest => (longField rest).map fun (year, rest) => ((year : Int), rest)
  | rest => (field 4 rest).map fun (year, rest) => ((year : Int), rest)

def mark (expected : Char) : List Char → Option (List Char)
  | character :: rest => if character = expected then some rest else none
  | [] => none

def milliseconds (fraction : List Char) : Nat :=
  Text.natOfDigits ((fraction ++ ['0', '0', '0']).take 3)

/-- A fraction of a second, which may be missing. A point without digits is refused. -/
def fractionField : List Char → Option (Nat × List Char)
  | '.' :: rest =>
      let found := rest.takeWhile Char.isDigit
      if found = [] then none else some (milliseconds found, rest.dropWhile Char.isDigit)
  | rest => some (0, rest)

/-- The sign of an offset. Besides the two ASCII signs there is U+2212. -/
def signField : List Char → Option (Int × List Char)
  | '+' :: rest => some (1, rest)
  | '-' :: rest => some (-1, rest)
  | '−' :: rest => some (-1, rest)
  | _ => none

def offsetOf? (sign : Int) (hours minutes : Nat) : Option Int :=
  if hours ≤ 23 ∧ minutes ≤ 59 then some (sign * (hours * 60 + minutes)) else none

/-! ## Forms -/

def dateFields (text : List Char) : Option (Date × List Char) := do
  let (year, text) ← yearField text
  let text ← mark '-' text
  let (month, text) ← field 2 text
  let text ← mark '-' text
  let (day, text) ← field 2 text
  let date ← Date.ofParts? year month day
  some (date, text)

def clockFields (seconds : Bool) (text : List Char) : Option (Clock × List Char) := do
  let (hour, text) ← field 2 text
  let text ← mark ':' text
  let (minute, text) ← field 2 text
  if seconds then
    let text ← mark ':' text
    let (second, text) ← field 2 text
    let (millisecond, text) ← fractionField text
    some (⟨hour, minute, second, millisecond⟩, text)
  else some (⟨hour, minute, 0, 0⟩, text)

/-- The form of the internet standard: fields of fixed width, seconds, and an
offset or the letter for none. -/
def standardForm? (text : List Char) : Option Int := do
  let (year, text) ← digits 4 text
  let text ← mark '-' text
  let (month, text) ← digits 2 text
  let text ← mark '-' text
  let (day, text) ← digits 2 text
  let text ← mark 'T' text <|> mark 't' text <|> mark ' ' text
  let (hour, text) ← digits 2 text
  let text ← mark ':' text
  let (minute, text) ← digits 2 text
  let text ← mark ':' text
  let (second, text) ← digits 2 text
  let (millisecond, text) ← fractionField text
  let date ← Date.ofParts? year month day
  let clock : Clock := ⟨hour, minute, second, millisecond⟩
  match text with
  | ['Z'] | ['z'] => instant? date clock 0
  | _ =>
      let (sign, text) ← signField text
      let (hours, text) ← digits 2 text
      let text ← mark ':' text
      let (minutes, text) ← digits 2 text
      let offset ← offsetOf? sign hours minutes
      if text = [] then instant? date clock offset else none

def offsetForm? (seconds : Bool) (text : List Char) : Option Int := do
  let (date, text) ← dateFields text
  let text ← mark 'T' text
  let (clock, text) ← clockFields seconds text
  let (sign, text) ← signField (text.dropWhile Text.isBlank)
  let (hours, text) ← digits 2 text
  let (minutes, text) ← digits 2 (text.dropWhile fun mark => mark = ':' || Text.isBlank mark)
  let offset ← offsetOf? sign hours minutes
  if text = [] then instant? date clock offset else none

def localForm? (letter seconds : Bool) (text : List Char) : Option Int := do
  let (date, text) ← dateFields text
  let text ← if letter then mark 'T' text else some (text.dropWhile Text.isBlank)
  let (clock, text) ← clockFields seconds text
  if text = [] then instant? date clock 0 else none

/-- A date alone: four bytes are a year, seven are a year and a month. -/
def dateForm? (text : List Char) : Option Int := do
  let date ←
    if (String.ofList text).utf8ByteSize = 4 then do
      Date.ofParts? (← Text.int? text) 1 1
    else if (String.ofList text).utf8ByteSize = 7 then do
      let year ← Text.int? (text.takeWhile (· ≠ '-'))
      let month ← Text.unsigned? (text.dropWhile (· ≠ '-')).tail
      Date.ofParts? year month 1
    else do
      let (date, text) ← dateFields text
      if text = [] then some date else none
  instant? date .midnight 0

def withoutZone (text : List Char) : List Char :=
  if text.getLast? = some 'Z' then text.dropLast else text

def read? (text : List Char) : Option Int :=
  let text := Text.trim text
  let zoneless := withoutZone text
  standardForm? text <|> offsetForm? false text <|> offsetForm? true text <|>
    localForm? true true zoneless <|> localForm? true false zoneless <|>
    localForm? false true zoneless <|> localForm? false false zoneless <|>
    dateForm? zoneless

example : read? "1970-01-02".toList = some 86400000 := by decide +kernel

end DocShell.Calendar
