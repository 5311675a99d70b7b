import Escrow.Timestamp

/-!
# The calendar

Every day has a date, and is found again from it (`exists_date`). The calendar has
eras of 400 years that begin with March, so that a leap day is the last one of its
year; a day of an era lies in one of four centuries, in one of the groups of four
years of that, in one of these years, and is one of its days (`LiesIn`).
-/

namespace Escrow.Timestamp

/-- Where a day of an era of 400 years lies: the century, the four years in it, the
    year of these, and the day of that year, all counted from zero. Only the last of
    four years has a day 365, and the last year of a century only if it is that of the
    era. -/
structure LiesIn (dayOfEra c q y d : Int) : Prop where
  eq : dayOfEra = 36524 * c + 1461 * q + 365 * y + d
  century : 0 ≤ c ∧ c ≤ 3
  four : 0 ≤ q ∧ q ≤ 24
  year : 0 ≤ y ∧ y ≤ 3
  day : 0 ≤ d ∧ d ≤ 365
  leap : d = 365 → y = 3 ∧ (q = 24 → c = 3)

variable {dayOfEra era c q y d : Int}

/-- Every day of an era lies in a century, four years, a year and a day of it. -/
theorem exists_liesIn (hnonneg : 0 ≤ dayOfEra) (hlt : dayOfEra < 146097) :
    ∃ c q y d, LiesIn dayOfEra c q y d := by
  by_cases hlast : dayOfEra = 146096
  · exact ⟨3, 24, 3, 365, by omega, by omega, by omega, by omega, by omega, by omega⟩
  by_cases hleap : dayOfEra % 36524 % 1461 = 1460
  · refine ⟨dayOfEra / 36524, dayOfEra % 36524 / 1461, 3, 365, ?_, ?_, ?_, ?_, ?_, ?_⟩ <;> omega
  · refine ⟨dayOfEra / 36524, dayOfEra % 36524 / 1461, dayOfEra % 36524 % 1461 / 365,
      dayOfEra % 36524 % 1461 % 365, ?_, ?_, ?_, ?_, ?_, ?_⟩ <;> omega

namespace LiesIn

variable (h : LiesIn dayOfEra c q y d)
include h

/-- The year of the era. -/
theorem yearOfEra_eq :
    (dayOfEra - dayOfEra / 1460 + dayOfEra / 36524 - dayOfEra / 146096) / 365 =
      100 * c + 4 * q + y := by
  obtain ⟨heq, hc, hq, hy, hd, hleap⟩ := h
  have hfours : dayOfEra / 1460 = 25 * c + q + (24 * c + q + 365 * y + d) / 1460 := by omega
  have hcentury : dayOfEra / 36524 - dayOfEra / 146096 = c := by
    by_cases hlast : dayOfEra = 146096
    · omega
    · have : dayOfEra / 36524 = c := by omega
      omega
  omega

/-- The days of the era before the year. -/
theorem daysBefore_eq : 365 * (100 * c + 4 * q + y) + (100 * c + 4 * q + y) / 4 -
    (100 * c + 4 * q + y) / 100 = 36524 * c + 1461 * q + 365 * y := by
  obtain ⟨-, -, hq, hy, -, -⟩ := h
  omega

end LiesIn

/-- The date of a day: the months are counted from March. -/
theorem dateOf_eq {days : Int} (h : LiesIn ((days + 719468) % 146097) c q y d)
    (hera : (days + 719468) / 146097 = era) :
    dateOf days =
      let m := (5 * d + 2) / 153
      let month := if m < 10 then m + 3 else m - 9
      (100 * c + 4 * q + y + era * 400 + (if month ≤ 2 then 1 else 0), month.toNat,
        (d - (153 * m + 2) / 5 + 1).toNat) := by
  have hday : 36524 * c + 1461 * q + 365 * y + d - (36524 * c + 1461 * q + 365 * y) = d := by
    rw [Int.add_comm, Int.add_sub_cancel]
  rw [dateOf]
  dsimp only
  rw [h.yearOfEra_eq, h.daysBefore_eq, hera, h.eq, hday]

/-- The days up to a date are those of its era and those within. -/
theorem daysFrom_eq (h : LiesIn dayOfEra c q y d) {year : Int} {month day : Nat}
    (hyear : (if month ≤ 2 then year - 1 else year) = 100 * c + 4 * q + y + era * 400)
    (hday : (153 * (((month : Int) + 9) % 12) + 2) / 5 + day - 1 = d) :
    daysFrom year month day = era * 146097 + dayOfEra - 719468 := by
  have hdiv : (100 * c + 4 * q + y + era * 400) / 400 = era := by
    obtain ⟨-, hc, hq, hy, -, -⟩ := h
    omega
  have hmod : (100 * c + 4 * q + y + era * 400) % 400 = 100 * c + 4 * q + y := by
    obtain ⟨-, hc, hq, hy, -, -⟩ := h
    omega
  rw [daysFrom, hyear, hday, hdiv, hmod, h.eq, ← h.daysBefore_eq]
  omega

/-- Every fourth year is a leap year, but of full centuries every fourth only. -/
theorem isLeapYear_iff (year : Int) :
    isLeapYear year ↔ year % 4 = 0 ∧ (year % 100 ≠ 0 ∨ year % 400 = 0) := by
  simp [isLeapYear]

/-- The day of a year that begins with March is one of a month of the calendar. -/
theorem month_spec (hd : 0 ≤ d ∧ d ≤ 365) :
    let m := (5 * d + 2) / 153
    let month := if m < 10 then m + 3 else m - 9
    let day := d - (153 * m + 2) / 5 + 1
    1 ≤ month ∧ month ≤ 12 ∧ 1 ≤ day ∧ (153 * ((month + 9) % 12) + 2) / 5 + day - 1 = d ∧
      ∀ year, (month = 2 → d = 365 → isLeapYear year) → day ≤ daysInMonth year month.toNat := by
  intro m month day
  by_cases hfebruary : m = 11
  · -- February is the last month, and longer in leap years.
    have hmonth : month = 2 := by simp only [month, hfebruary]; rfl
    have hday : day = d - 336 := by simp only [day, hfebruary]; omega
    refine ⟨by omega, by omega, by omega, by omega, fun year hleap => ?_⟩
    rw [hmonth] at hleap ⊢
    by_cases hlast : d = 365
    · simp [daysInMonth, hleap rfl hlast]
      omega
    · have hdays : 28 ≤ daysInMonth year (Int.toNat 2) := by
        change 28 ≤ if isLeapYear year then 29 else 28
        split <;> decide
      omega
  · obtain hm | hm | hm | hm | hm | hm | hm | hm | hm | hm | hm : m = 0 ∨ m = 1 ∨ m = 2 ∨
        m = 3 ∨ m = 4 ∨ m = 5 ∨ m = 6 ∨ m = 7 ∨ m = 8 ∨ m = 9 ∨ m = 10 := by omega
    all_goals
      refine ⟨by omega, by omega, by omega, ?_, fun year _ => ?_⟩
      · simp only [month, day, hm]
        omega
      · simp [month, day, hm, daysInMonth]
        omega

/-- The date of a day is one that there is, and the day is found from it. -/
theorem exists_date (days : Int) : ∃ year month day, dateOf days = (year, month, day) ∧
    daysFrom year month day = days ∧ 1 ≤ month ∧ month ≤ 12 ∧ 1 ≤ day ∧
      day ≤ daysInMonth year month := by
  have hnonneg : 0 ≤ (days + 719468) % 146097 := by omega
  obtain ⟨c, q, y, d, h⟩ := exists_liesIn hnonneg (by omega)
  obtain ⟨era, hera⟩ : ∃ era, (days + 719468) / 146097 = era := ⟨_, rfl⟩
  refine ⟨_, _, _, dateOf_eq h hera, ?_⟩
  obtain ⟨hmonth1, hmonth12, hday1, hback, hlength⟩ := month_spec h.day
  obtain ⟨month, hmonth⟩ := Int.eq_ofNat_of_zero_le (Int.le_of_lt hmonth1)
  obtain ⟨day, hday⟩ := Int.eq_ofNat_of_zero_le (Int.le_of_lt hday1)
  rw [hmonth] at hmonth1 hmonth12 hlength
  rw [hmonth, hday] at hback
  rw [hday] at hday1 hlength
  rw [hmonth, hday, Int.toNat_natCast, Int.toNat_natCast]
  refine ⟨?_, by omega, by omega, by omega, ?_⟩
  · rw [daysFrom_eq h (show _ = _ + era * 400 from ?_) hback]
    · omega
    · split <;> split <;> omega
  · have := hlength (100 * c + 4 * q + y + era * 400 + if (month : Int) ≤ 2 then 1 else 0)
      fun hmonth hlast => ?_
    · rw [Int.toNat_natCast] at this
      omega
    · obtain ⟨rfl, hcentury⟩ := h.leap hlast
      obtain ⟨-, hc, hq, -, -, -⟩ := h
      rw [if_pos (by omega), isLeapYear_iff]
      -- The last of four years is a leap year, but that of a century only in the last century
      -- of an era.
      by_cases hq24 : q = 24
      · obtain rfl := hcentury hq24
        omega
      · omega

end Escrow.Timestamp
