import DocShell.Proofs.Calendar.Date

namespace DocShell.Date

/-! # Days counted year by year

The days before a year are the days of all years from the epoch to it, and of those
from it to the epoch if it lies before that. -/

def yearLength (year : Int) : Nat := if isLeap year then 366 else 365

def daysOfYears (first : Int) (count : Nat) : Nat :=
  daysOf ((List.range count).map fun (later : Nat) => yearLength (first + later))

theorem daysOf_append (front back : List Nat) :
    daysOf (front ++ back) = daysOf front + daysOf back := by
  induction front with
  | nil => exact (Nat.zero_add _).symm
  | cons length front induction =>
      rw [List.cons_append, daysOf_cons, daysOf_cons, induction, Nat.add_assoc]

def firstDay (year : Int) : Int :=
  if 1970 ≤ year then daysOfYears 1970 (year - 1970).toNat
  else -daysOfYears year (1970 - year).toNat

theorem daysBeforeYear_add (first : Int) (count : Nat) :
    daysBeforeYear (first + count) = daysBeforeYear first + daysOfYears first count := by
  induction count with
  | zero => simp [daysOfYears, daysOf]
  | succ count induction =>
      have length : daysOf (monthLengths (isLeap (first + count))) =
          yearLength (first + count) := by
        rw [yearLength]
        cases isLeap (first + count) <;> rfl
      rw [daysOfYears] at induction ⊢
      rw [Int.natCast_succ, ← Int.add_assoc, daysBeforeYear_succ, induction, length,
        List.range_succ, List.map_append, daysOf_append, Int.natCast_add, Int.add_assoc]
      rfl

theorem daysBeforeYear_sub {earlier later : Int} (order : earlier ≤ later) :
    daysBeforeYear later =
      daysBeforeYear earlier + daysOfYears earlier (later - earlier).toNat := by
  rw [← daysBeforeYear_add, Int.toNat_of_nonneg (Int.sub_nonneg_of_le order)]
  congr 1
  omega

theorem firstDay_eq (year : Int) : firstDay year = daysBeforeYear year - epochDay := by
  have epoch : daysBeforeYear 1970 = epochDay := by decide
  rw [firstDay, ← epoch]
  split
  · rename_i later
    rw [daysBeforeYear_sub later]
    omega
  · rename_i earlier
    rw [daysBeforeYear_sub (Int.le_of_not_le earlier)]
    omega

theorem le_yearOfDay_iff {day year : Int} : year ≤ yearOfDay day ↔ daysBeforeYear year ≤ day := by
  have low := daysBeforeYear_yearOfDay_le day
  have high := lt_daysBeforeYear_yearOfDay day
  constructor
  · intro order
    have counted := daysBeforeYear_sub order
    omega
  · intro reached
    refine Int.not_lt.mp fun less => ?_
    have counted := daysBeforeYear_sub (show yearOfDay day + 1 ≤ year from less)
    omega

/-! ## Months -/

/-- The days of a month, of which there are none behind December. -/
def monthLength (year : Int) (month : Nat) : Nat :=
  ((monthLengths (isLeap year))[month - 1]?).getD 0

def daysBeforeMonth (year : Int) (month : Nat) : Nat :=
  daysOf ((monthLengths (isLeap year)).take (month - 1))

theorem daysOf_take_add_le {lengths : List Nat} {index length : Nat}
    (found : lengths[index]? = some length) :
    daysOf (lengths.take index) + length ≤ daysOf lengths := by
  rcases List.getElem?_eq_some_iff.mp found with ⟨inside, rfl⟩
  have split := congrArg daysOf (List.take_append_drop index lengths)
  rw [daysOf_append, List.drop_eq_getElem_cons inside, daysOf_cons] at split
  omega

/-- A day of a month is a day of the year. -/
theorem daysBeforeMonth_add_le {year : Int} {month day : Nat} (positive : 1 ≤ day)
    (inside : day ≤ monthLength year month) :
    daysBeforeYear year + (daysBeforeMonth year month + day : Nat) ≤ daysBeforeYear (year + 1) := by
  rw [daysBeforeYear_succ, daysBeforeMonth]
  rw [monthLength] at inside
  cases found : (monthLengths (isLeap year))[month - 1]? with
  | none =>
      rw [found, Option.getD_none] at inside
      omega
  | some length =>
      have bound := daysOf_take_add_le found
      rw [found, Option.getD_some] at inside
      omega

theorem ofParts?_eq {year : Int} {month day : Nat} (first : firstYear ≤ year)
    (last : year ≤ lastYear) (monthPositive : 1 ≤ month) (positive : 1 ≤ day)
    (inside : day ≤ monthLength year month) :
    ofParts? year month day = some ⟨year, month, day⟩ := by
  rw [monthLength] at inside
  rw [ofParts?]
  cases found : (monthLengths (isLeap year))[month - 1]? with
  | none =>
      rw [found, Option.getD_none] at inside
      omega
  | some length =>
      rw [found, Option.getD_some] at inside
      exact if_pos ⟨first, last, monthPositive, positive, inside⟩

end DocShell.Date
