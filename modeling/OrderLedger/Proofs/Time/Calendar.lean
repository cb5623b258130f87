import OrderLedger.Time.Instant

/-!
The calendar is read back: every day has a valid date, and the day of that date is the day
itself. A day of the 400-year cycle is told by its century, by its group of four years
there, by its year in the group and by its day in that year, counted from March.
-/

namespace OrderLedger.Time.Date

/-- A day of the cycle by its parts. Only the fourth year of a group has day 365, and the
last group of a century only if the century is the last one. -/
structure Parts (dayOfCycle century group year dayOfYear : Int) : Prop where
  ofCentury : 0 ≤ century ∧ century ≤ 3
  ofGroup : 0 ≤ group ∧ group ≤ 24
  ofYear : 0 ≤ year ∧ year ≤ 3
  ofDay : 0 ≤ dayOfYear ∧ dayOfYear ≤ 365
  sum : dayOfCycle = 36524 * century + 1461 * group + 365 * year + dayOfYear
  leap : dayOfYear = 365 → year = 3 ∧ (group = 24 → century = 3)

theorem exists_parts {dayOfCycle : Int} (hstart : 0 ≤ dayOfCycle) (hend : dayOfCycle < 146097) :
    ∃ century group year dayOfYear, Parts dayOfCycle century group year dayOfYear := by
  -- The last day of the cycle belongs to the fourth century, which is one day longer.
  obtain ⟨century, hcentury⟩ : ∃ c, c = if dayOfCycle = 146096 then 3 else dayOfCycle / 36524 :=
    ⟨_, rfl⟩
  obtain ⟨group, hgroup⟩ : ∃ g, g = (dayOfCycle - 36524 * century) / 1461 := ⟨_, rfl⟩
  obtain ⟨rest, hrest⟩ : ∃ r, r = (dayOfCycle - 36524 * century) % 1461 := ⟨_, rfl⟩
  obtain ⟨year, hyear⟩ : ∃ y, y = if rest = 1460 then 3 else rest / 365 := ⟨_, rfl⟩
  refine ⟨century, group, year, rest - 365 * year, ?_, ?_, ?_, ?_, ?_, ?_⟩
  all_goals split at hcentury <;> split at hyear <;> omega

theorem Parts.yearOfCycle {dayOfCycle century group year dayOfYear : Int}
    (h : Parts dayOfCycle century group year dayOfYear) :
    (dayOfCycle - dayOfCycle / 1460 + dayOfCycle / 36524 - dayOfCycle / 146096) / 365 =
      100 * century + 4 * group + year := by
  obtain ⟨hcentury, hgroup, hyear, hday, hsum, hleap⟩ := h
  have hinside : 1461 * group + 365 * year + dayOfYear < 36524 ∨
      century = 3 ∧ 1461 * group + 365 * year + dayOfYear = 36524 := by
    by_cases hlast : dayOfYear = 365
    · obtain ⟨hfourth, hcase⟩ := hleap hlast
      by_cases hgroups : group = 24
      · have := hcase hgroups
        omega
      · omega
    · omega
  have hcenturies : dayOfCycle / 36524 - dayOfCycle / 146096 = century := by
    rcases hinside with hinside | ⟨hlast, hinside⟩
    · have hquotient : dayOfCycle / 36524 = century := by omega
      have hnone : dayOfCycle / 146096 = 0 := by omega
      omega
    · have hlastDay : dayOfCycle = 146096 := by omega
      rw [hlastDay, hlast]
      rfl
  have hyears : dayOfCycle / 1460 = 25 * century + group ∨
      dayOfCycle / 1460 = 25 * century + group + 1 ∧
        1460 ≤ 24 * century + group + 365 * year + dayOfYear := by omega
  omega

/-- The month of a day of the year, counted from March, and the day of the month. -/
theorem exists_month {dayOfYear : Int} (hstart : 0 ≤ dayOfYear) (hend : dayOfYear ≤ 365) :
    ∃ month day, (5 * dayOfYear + 2) / 153 = month ∧
      dayOfYear - (153 * month + 2) / 5 + 1 = day ∧ 0 ≤ month ∧ month ≤ 11 ∧ 1 ≤ day ∧
      (month = 11 → day ≤ 29 ∧ (day = 29 → dayOfYear = 365)) ∧
      (month = 1 ∨ month = 3 ∨ month = 6 ∨ month = 8 → day ≤ 30) ∧ day ≤ 31 := by
  refine ⟨_, _, rfl, rfl, ?_, ?_, ?_, ?_, ?_, ?_⟩ <;> omega

theorem ofDay_eq {day : Int} {century group year dayOfYear : Int}
    (h : Parts ((day + epochOffset) % cycleDays) century group year dayOfYear) :
    ofDay day =
      let month := (5 * dayOfYear + 2) / 153
      let start := 100 * century + 4 * group + year + (day + epochOffset) / cycleDays * 400
      { year := if month < 10 then start else start + 1
        month := (if month < 10 then month + 3 else month - 9).toNat
        day := (dayOfYear - (153 * month + 2) / 5 + 1).toNat } := by
  have hday : (day + epochOffset) % cycleDays - (365 * (100 * century + 4 * group + year) +
      (100 * century + 4 * group + year) / 4 - (100 * century + 4 * group + year) / 100) =
        dayOfYear := by
    have hyear := h.ofYear
    have hgroup := h.ofGroup
    have hcentury := h.ofCentury
    have hsum := h.sum
    omega
  simp only [ofDay, h.yearOfCycle, hday]

theorem parts_of_day (day : Int) :
    ∃ century group year dayOfYear,
      Parts ((day + epochOffset) % cycleDays) century group year dayOfYear := by
  apply exists_parts <;> unfold cycleDays <;> omega

/-- The year of a day, as its cycle, its century and its group count it. -/
theorem Parts.counts {dayOfCycle century group year dayOfYear : Int}
    (h : Parts dayOfCycle century group year dayOfYear) (cycle : Int) :
    (100 * century + 4 * group + year + cycle * 400) / 400 = cycle ∧
      (100 * century + 4 * group + year + cycle * 400) % 400 = 100 * century + 4 * group + year ∧
      (100 * century + 4 * group + year) / 4 = 25 * century + group ∧
      (100 * century + 4 * group + year) / 100 = century := by
  have hcentury := h.ofCentury
  have hgroup := h.ofGroup
  have hyear := h.ofYear
  refine ⟨?_, ?_, ?_, ?_⟩ <;> omega

/-- The day of the date of a day is the day. -/
theorem toDay_ofDay (day : Int) : (ofDay day).toDay = day := by
  obtain ⟨century, group, year, dayOfYear, hparts⟩ := parts_of_day day
  rw [ofDay_eq hparts]
  obtain ⟨hcycle, hyearOfCycle, hgroups, hcenturies⟩ :=
    hparts.counts ((day + epochOffset) / cycleDays)
  obtain ⟨month, dayOfMonth, hmonth, hdayOfMonth, hfirst, hlast, hpositive, -⟩ :=
    exists_month hparts.ofDay.1 hparts.ofDay.2
  obtain ⟨month, rfl⟩ := Int.eq_ofNat_of_zero_le hfirst
  have hsum := hparts.sum
  -- March to December belong to the year in which they start, January and February do not.
  by_cases hspring : month < 10
  · have hfields : (↑month + 3 : Int).toNat = month + 3 := by omega
    have hinYear : (month : Int) < 10 := by omega
    have hlate : ¬ month + 3 ≤ 2 := by omega
    simp only [hmonth, hdayOfMonth, toDay, hfields, hinYear, if_true, hlate, if_false, hcycle,
      hyearOfCycle, hgroups, hcenturies, Nat.add_sub_cancel]
    unfold cycleDays epochOffset at *
    omega
  · have hfields : (↑month - 9 : Int).toNat = month - 9 := by omega
    have hnextYear : ¬ (month : Int) < 10 := by omega
    have hearly : month - 9 ≤ 2 := by omega
    have hcounted : month - 9 + 9 = month := by omega
    simp only [hmonth, hdayOfMonth, toDay, hfields, hnextYear, if_true, hearly, if_false,
      Int.add_sub_cancel, hcycle, hyearOfCycle, hgroups, hcenturies, hcounted]
    unfold cycleDays epochOffset at *
    omega

theorem daysInMonth_le (year : Int) (month : Nat) : daysInMonth year month ≤ 31 := by
  unfold daysInMonth
  split
  · split <;> decide
  · split <;> decide

theorem daysInMonth_january (year : Int) : daysInMonth year 1 = 31 := rfl

theorem daysInMonth_february (year : Int) :
    daysInMonth year 2 = if isLeapYear year then 29 else 28 := rfl

theorem isValid_ofDay (day : Int) : (ofDay day).IsValid := by
  obtain ⟨century, group, year, dayOfYear, hparts⟩ := parts_of_day day
  rw [ofDay_eq hparts]
  obtain ⟨month, dayOfMonth, hmonth, hdayOfMonth, hfirst, hlast, hpositive, hfebruary, hshort,
    hlong⟩ := exists_month hparts.ofDay.1 hparts.ofDay.2
  obtain ⟨month, rfl⟩ := Int.eq_ofNat_of_zero_le hfirst
  by_cases hspring : month < 10
  · have hfields : (↑month + 3 : Int).toNat = month + 3 := by omega
    have hinYear : (month : Int) < 10 := by omega
    have hnoLeapDay : ¬ month + 3 = 2 := by omega
    simp only [hmonth, hdayOfMonth, IsValid, daysInMonth, hfields, hinYear, if_true, hnoLeapDay,
      if_false]
    refine ⟨by omega, by omega, by omega, ?_⟩
    split <;> omega
  · have hfields : (↑month - 9 : Int).toNat = month - 9 := by omega
    have hnextYear : ¬ (month : Int) < 10 := by omega
    simp only [hmonth, hdayOfMonth, IsValid, hfields, hnextYear, if_false]
    refine ⟨by omega, by omega, by omega, ?_⟩
    by_cases hjanuary : month = 10
    · have hfirstMonth : month - 9 = 1 := by omega
      rw [hfirstMonth, daysInMonth_january]
      omega
    · have hsecondMonth : month - 9 = 2 := by omega
      rw [hsecondMonth, daysInMonth_february]
      obtain ⟨hdays, hleapDay⟩ := hfebruary (by omega)
      by_cases hlastDay : dayOfMonth = 29
      · have hleap : isLeapYear (100 * century + 4 * group + year +
            (day + epochOffset) / cycleDays * 400 + 1) = true := by
          have hcentury := hparts.ofCentury
          have hgroup := hparts.ofGroup
          obtain ⟨hfourth, hlastGroup⟩ := hparts.leap (hleapDay hlastDay)
          simp only [isLeapYear, Bool.and_eq_true, Bool.or_eq_true, decide_eq_true_eq, ne_eq]
          refine ⟨by omega, ?_⟩
          by_cases hcase : group = 24
          · have := hlastGroup hcase
            right
            omega
          · left
            omega
        rw [if_pos hleap]
        omega
      · split <;> omega

theorem year_ofDay {day : Int} (hstart : -96465292 ≤ day) (hend : day ≤ 95026236) :
    -262143 ≤ (ofDay day).year ∧ (ofDay day).year ≤ 262142 := by
  obtain ⟨century, group, year, dayOfYear, hparts⟩ := parts_of_day day
  rw [ofDay_eq hparts]
  obtain ⟨hcentury, hgroup, hyear, hday, hsum, -⟩ := hparts
  have hspring : dayOfYear ≤ 305 ↔ (5 * dayOfYear + 2) / 153 < 10 := by omega
  simp only [← hspring]
  unfold epochOffset cycleDays at *
  have hcenturies : century = 0 ∨ century = 1 ∨ century = 2 ∨ century = 3 := by omega
  have hyears : year = 0 ∨ year = 1 ∨ year = 2 ∨ year = 3 := by omega
  rcases hcenturies with rfl | rfl | rfl | rfl <;> rcases hyears with rfl | rfl | rfl | rfl <;>
    constructor <;> split <;> omega
end OrderLedger.Time.Date
