import MetricEngine.Time.Calendar

/-!
Every day has a date: the one that is computed for its number exists, and its number is that of the day.
-/
namespace MetricEngine.Calendar

/-- Days of an era before one of its years. -/
def daysBefore (year : Int) : Int :=
  365 * year + year / 4 - year / 100

/-- The year of an era in which one of its days lies, and how long that year is. Dropping the leap days
before the division by 365 may miss by one only where the year has one. -/
theorem yearOfEra_spec {day year : Int} (first : 0 ≤ day) (last : day < daysPerEra)
    (quotient : year = (day - day / 1460 + day / 36524 - day / 146096) / 365) :
    (0 ≤ year ∧ year < 400) ∧ daysBefore year ≤ day ∧ day ≤ daysBefore year + 365 ∧
      (day = daysBefore year + 365 → isLeap (year + 1)) := by
  unfold daysPerEra at last
  unfold daysBefore
  simp only [isLeap, Bool.and_eq_true, Bool.or_eq_true, decide_eq_true_eq]
  rcases Int.lt_or_le day 146096 with early | late
  · have centuries : day / 36524 = 0 ∨ day / 36524 = 1 ∨ day / 36524 = 2 ∨ day / 36524 = 3 := by omega
    have whole : day / 146096 = 0 := by omega
    have century : year / 100 = day / 36524 := by omega
    have leap_days : day / 1460 = year / 4 ∨ day / 1460 = year / 4 + 1 := by omega
    refine ⟨by omega, by omega, ?_, fun long => ?_⟩
    · have place : year % 4 = 0 ∨ year % 4 = 1 ∨ year % 4 = 2 ∨ year % 4 = 3 := by omega
      omega
    · have place : year % 4 = 3 := by omega
      omega
  · obtain rfl : day = 146096 := by omega
    omega

theorem isLeap_add_eras (year era : Int) : isLeap (era * 400 + year) = isLeap year := by
  have parts : (era * 400 + year) % 4 = year % 4 ∧ (era * 400 + year) % 100 = year % 100 ∧
      (era * 400 + year) % 400 = year % 400 := by omega
  rw [isLeap, isLeap, parts.1, parts.2.1, parts.2.2]

/-- The date of a day counted from the first of March of a year. -/
def Date.ofYearDay (year day : Int) : Date :=
  let month := (5 * day + 2) / 153
  let civilMonth := if month < 10 then month + 3 else month - 9
  { year := year + (if civilMonth ≤ 2 then 1 else 0)
    month := civilMonth.toNat
    day := (day - (153 * month + 2) / 5 + 1).toNat }

theorem daysInMonth_le (year : Int) (month : Nat) : daysInMonth year month ≤ 31 := by
  unfold daysInMonth
  split <;> try split
  all_goals decide

/-- Each month but February ends where the next one starts. -/
theorem daysInMonth_civil {month : Int} (first : 0 ≤ month) (last : month ≤ 10) (year : Int) :
    (daysInMonth year (if month < 10 then month + 3 else month - 9).toNat : Int) =
      (153 * (month + 1) + 2) / 5 - (153 * month + 2) / 5 := by
  have months : month = 0 ∨ month = 1 ∨ month = 2 ∨ month = 3 ∨ month = 4 ∨ month = 5 ∨ month = 6 ∨
      month = 7 ∨ month = 8 ∨ month = 9 ∨ month = 10 := by omega
  rcases months with rfl | rfl | rfl | rfl | rfl | rfl | rfl | rfl | rfl | rfl | rfl <;> rfl

namespace Date
variable {year day : Int}

theorem isValid_ofYearDay (first : 0 ≤ day) (last : day ≤ 365) (leap : day = 365 → isLeap (year + 1)) :
    (ofYearDay year day).isValid := by
  obtain ⟨month, quotient⟩ : ∃ month, month = (5 * day + 2) / 153 := ⟨_, rfl⟩
  simp only [isValid, ofYearDay, ← quotient, Bool.and_eq_true, decide_eq_true_eq]
  refine ⟨⟨⟨by split <;> omega, by split <;> omega⟩, by omega⟩, ?_⟩
  by_cases february : month = 11
  · subst february
    -- February takes what is left of the year.
    have length : (day - (153 * 11 + 2) / 5 + 1).toNat ≤ if isLeap (year + 1) then 29 else 28 := by
      split
      next => omega
      next common =>
        have short : day ≠ 365 := fun long => common (leap long)
        omega
    exact length
  · have before : 0 ≤ month ∧ month ≤ 10 := by omega
    have length := daysInMonth_civil before.1 before.2
      (year + if (if month < 10 then month + 3 else month - 9) ≤ 2 then 1 else 0)
    omega

theorem dayNumber_ofYearDay (first : 0 ≤ day) (last : day ≤ 365) :
    (ofYearDay year day).dayNumber =
      year / 400 * daysPerEra + (daysBefore (year % 400) + day) - epochDay := by
  obtain ⟨month, quotient⟩ : ∃ month, month = (5 * day + 2) / 153 := ⟨_, rfl⟩
  have months : 0 ≤ month ∧ month < 12 := by omega
  have below : (153 * month + 2) / 5 ≤ day := by omega
  simp only [dayNumber, ofYearDay, ← quotient, daysBefore]
  by_cases early : month < 10
  · have civil : ¬(month + 3).toNat ≤ 2 ∧ ¬month + 3 ≤ 2 ∧ ((month + 3).toNat + 9 : Int) % 12 = month := by
      omega
    simp only [early, if_true, civil, if_false, Int.add_zero]
    omega
  · have civil : (month - 9).toNat ≤ 2 ∧ month - 9 ≤ 2 ∧ ((month - 9).toNat + 9 : Int) % 12 = month := by
      omega
    simp only [early, if_true, civil, if_false, Int.add_sub_cancel]
    omega

end Date

/-- The date of a day stands in the era and the year that the day lies in. -/
theorem exists_ofYearDay (number : Int) :
    ∃ year day, Date.ofDayNumber number = .ofYearDay year day ∧ (0 ≤ day ∧ day ≤ 365) ∧
      (day = 365 → isLeap (year + 1)) ∧
      number = year / 400 * daysPerEra + (daysBefore (year % 400) + day) - epochDay := by
  obtain ⟨day, day_eq⟩ : ∃ day, day = (number + epochDay) % daysPerEra := ⟨_, rfl⟩
  obtain ⟨year, year_eq⟩ : ∃ year, year = (day - day / 1460 + day / 36524 - day / 146096) / 365 := ⟨_, rfl⟩
  have first : 0 ≤ day := day_eq ▸ Int.emod_nonneg _ (by decide)
  have last : day < daysPerEra := day_eq ▸ Int.emod_lt_of_pos _ (by decide)
  obtain ⟨⟨year_first, year_last⟩, start, finish, leap⟩ := yearOfEra_spec first last year_eq
  refine ⟨(number + epochDay) / daysPerEra * 400 + year, day - daysBefore year, ?_,
    ⟨by omega, by omega⟩, fun long => ?_, ?_⟩
  · subst year_eq day_eq
    rfl
  · rw [Int.add_assoc, isLeap_add_eras]
    exact leap (by omega)
  · have parts : ((number + epochDay) / daysPerEra * 400 + year) / 400 = (number + epochDay) / daysPerEra ∧
        ((number + epochDay) / daysPerEra * 400 + year) % 400 = year := by omega
    have whole := Int.mul_ediv_add_emod (number + epochDay) daysPerEra
    rw [parts.1, parts.2]
    rw [← day_eq, Int.mul_comm] at whole
    omega

theorem isValid_ofDayNumber (number : Int) : (Date.ofDayNumber number).isValid := by
  obtain ⟨year, day, date, ⟨first, last⟩, leap, _⟩ := exists_ofYearDay number
  exact date ▸ Date.isValid_ofYearDay first last leap

theorem dayNumber_ofDayNumber (number : Int) : (Date.ofDayNumber number).dayNumber = number := by
  obtain ⟨year, day, date, ⟨first, last⟩, _, place⟩ := exists_ofYearDay number
  rw [date, Date.dayNumber_ofYearDay first last, ← place]

end MetricEngine.Calendar
