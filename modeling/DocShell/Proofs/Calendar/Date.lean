import DocShell.Calendar.Date

namespace DocShell.Date

/-! # Days and dates

The date of a day is a date of the calendar, and it falls on that day. The year is
bracketed by its first day and that of the next year, and within a year the months
are passed one by one. -/

theorem daysBeforeYear_succ (year : Int) :
    daysBeforeYear (year + 1) = daysBeforeYear year + daysOf (monthLengths (isLeap year)) := by
  have length : (daysOf (monthLengths (isLeap year)) : Int) = if isLeap year then 366 else 365 := by
    cases isLeap year <;> rfl
  rw [length]
  simp only [daysBeforeYear, isLeap, Bool.and_eq_true, Bool.or_eq_true, decide_eq_true_eq]
  split <;> omega

theorem daysOf_cons (length : Nat) (rest : List Nat) :
    daysOf (length :: rest) = length + daysOf rest := rfl

/-- A day within the months of a list lies in one of them. -/
theorem monthAndDay_bounds {lengths : List Nat} {day : Nat} (inside : day < daysOf lengths)
    (month : Nat) :
    ∃ index length dayOfMonth, monthAndDay lengths month day = (month + index, dayOfMonth + 1) ∧
      lengths[index]? = some length ∧ dayOfMonth < length ∧
      daysOf (lengths.take index) + dayOfMonth = day := by
  induction lengths generalizing month day with
  | nil => exact absurd inside (Nat.not_lt_zero _)
  | cons length rest induction =>
      rw [monthAndDay]
      by_cases first : day < length
      · rw [if_pos first]
        exact ⟨0, length, day, rfl, rfl, first, Nat.zero_add day⟩
      · rw [daysOf_cons] at inside
        have later : day - length < daysOf rest := by omega
        rcases induction later (month + 1) with
          ⟨index, found, dayOfMonth, equal, position, small, total⟩
        refine ⟨index + 1, found, dayOfMonth, ?_, position, small, ?_⟩
        · rw [if_neg first, equal, Nat.add_right_comm, Nat.add_assoc]
        · rw [List.take_succ_cons, daysOf_cons]
          omega

/-- The parts of the date of a day. -/
theorem ofDays_bounds (days : Int) :
    ∃ index length dayOfMonth,
      ofDays days = ⟨yearOfDay (days + epochDay), 1 + index, dayOfMonth + 1⟩ ∧
      (monthLengths (isLeap (yearOfDay (days + epochDay))))[index]? = some length ∧
      dayOfMonth < length ∧
      daysBeforeYear (yearOfDay (days + epochDay)) +
        (daysOf ((monthLengths (isLeap (yearOfDay (days + epochDay)))).take index) + dayOfMonth : Nat) =
        days + epochDay := by
  have low := daysBeforeYear_yearOfDay_le (days + epochDay)
  have high := lt_daysBeforeYear_yearOfDay (days + epochDay)
  rw [daysBeforeYear_succ] at high
  simp only [ofDays]
  generalize yearOfDay (days + epochDay) = year at low high ⊢
  generalize days + epochDay = day at low high ⊢
  have inside : (day - daysBeforeYear year).toNat < daysOf (monthLengths (isLeap year)) := by omega
  rcases monthAndDay_bounds inside 1 with
    ⟨index, length, dayOfMonth, equal, position, small, total⟩
  refine ⟨index, length, dayOfMonth, ?_, position, small, ?_⟩
  · rw [equal]
  · omega

/-- The date of a day falls on that day. -/
theorem toDays_ofDays (days : Int) : (ofDays days).toDays = days := by
  rcases ofDays_bounds days with ⟨index, length, dayOfMonth, equal, _, _, total⟩
  rw [equal, toDays]
  simp only [Nat.add_sub_cancel_left]
  omega

end DocShell.Date
