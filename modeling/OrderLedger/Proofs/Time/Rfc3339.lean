import OrderLedger.Proofs.Text.Decimal
import OrderLedger.Proofs.Text.Spans
import OrderLedger.Proofs.Time.Calendar
import OrderLedger.Time.Rfc3339

/-!
A timestamp that was written for the wire is read back as the same moment.
-/

namespace OrderLedger.Time

/-- A moment that the clock can show: a second of a day of the calendar, prolonged only
where it is the last one of its minute. -/
def Instant.IsValid (t : Instant) : Prop :=
  t.IsInCalendar ∧ t.second < 86400 ∧
    (t.nano < 1000000000 ∨ t.nano < 2000000000 ∧ t.second % 60 = 59)

instance (t : Instant) : Decidable t.IsValid := inferInstanceAs (Decidable (_ ∧ _))

theorem Instant.isInCalendar_iff {t : Instant} :
    t.IsInCalendar ↔ -96465292 ≤ t.day ∧ t.day ≤ 95026236 := by
  have hfirst : firstDay = -96465292 := by decide
  have hlast : lastDay = 95026236 := by decide
  rw [IsInCalendar, hfirst, hlast]

namespace Rfc3339

open OrderLedger.Text Decimal

variable {ds rest : List Char}

/-- Digits are taken as a whole if they fill the width or end before it. -/
private theorem taken_digits {width : Nat} (hds : ds.all isDigit = true)
    (hwidth : ds.length ≤ width)
    (hrest : ds.length = width ∨ Stops isDigit rest) :
    ((ds ++ rest).take width).takeWhile isDigit = ds := by
  rw [List.take_append, List.take_of_length_le hwidth]
  apply takeWhile_append_stops hds
  rcases hrest with hfull | hend
  · rw [hfull, Nat.sub_self, List.take_zero]
    exact stops_nil
  · exact hend.take _

theorem number?_digits {width : Nat} (hds : ds.all isDigit = true) (hne : ds ≠ [])
    (hwidth : ds.length ≤ width)
    (hrest : ds.length = width ∨ Stops isDigit rest) :
    number? width (ds ++ rest) = some (value ds, rest) := by
  unfold number?
  simp only [taken_digits hds hwidth hrest, List.isEmpty_eq_false_iff.mpr hne,
    Bool.false_eq_true, if_false, List.drop_left]

theorem skip_digits (hds : ds.all isDigit = true) (hne : ds ≠ []) :
    skip (ds ++ rest) = ds ++ rest := by
  cases ds with
  | nil => exact absurd rfl hne
  | cons c ds =>
      rw [List.all_cons, Bool.and_eq_true] at hds
      simp [skip, isWhiteSpace_of_isDigit hds.1]

theorem field?_padded {least greatest n : Nat} (hn : n < 100) (hleast : least ≤ n)
    (hgreatest : n ≤ greatest) :
    field? least greatest (padded 2 n ++ rest) = some (n, rest) := by
  have hall := all_isDigit_padded 2 n
  have hne := padded_ne_nil 2 n
  have hlength : (padded 2 n).length = 2 := length_padded (by decide) hn
  rw [field?, skip_digits hall hne,
    number?_digits hall hne (Nat.le_of_eq hlength) (Or.inl hlength), value_padded]
  simp [hleast, hgreatest]

/-- A number with no width of its own is read up to the next character. -/
private theorem number?_signed {n : Nat} {c : Char} (hc : isDigit c = false) :
    number? (padded 4 n ++ c :: rest).length (padded 4 n ++ c :: rest) = some (n, c :: rest) := by
  rw [number?_digits (all_isDigit_padded 4 n) (padded_ne_nil 4 n) (by simp)
    (Or.inr (stops_cons hc)), value_padded]

private theorem year?_minus (cs : List Char) :
    year? ('-' :: cs) = (number? cs.length cs).map fun r => (-(Int.ofNat r.1), r.2) := rfl

private theorem year?_plus (cs : List Char) :
    year? ('+' :: cs) = (number? cs.length cs).map fun r => (Int.ofNat r.1, r.2) := rfl

/-- Without a sign, a year has four digits at most. -/
private theorem year?_digits (hds : ds.all isDigit = true) (hlength : ds.length = 4) :
    year? (ds ++ rest) = some (Int.ofNat (value ds), rest) := by
  have hne : ds ≠ [] := by
    rintro rfl
    cases hlength
  rw [year?, skip_digits hds hne]
  split
  · next heq =>
      cases ds with
      | nil => exact absurd rfl hne
      | cons c ds =>
          cases heq
          have hminus : isDigit '-' = false := by decide
          simp [hminus] at hds
  · next heq =>
      cases ds with
      | nil => exact absurd rfl hne
      | cons c ds =>
          cases heq
          have hplus : isDigit '+' = false := by decide
          simp [hplus] at hds
  · rw [number?_digits hds hne (Nat.le_of_eq hlength) (Or.inl hlength)]
    rfl

theorem year?_yearText (year : Int) :
    year? (yearText year ++ '-' :: rest) = some (year, '-' :: rest) := by
  have hdash : isDigit '-' = false := by decide
  unfold yearText
  split
  · next hnegative =>
      rw [List.cons_append, year?_minus, number?_signed hdash, Option.map_some]
      have hyear : -Int.ofNat year.natAbs = year := by
        rw [Int.ofNat_eq_natCast]
        omega
      rw [hyear]
  · next hpositive =>
      have hyear : Int.ofNat year.toNat = year := Int.toNat_of_nonneg (by omega)
      split
      · next hsmall =>
          rw [year?_digits (all_isDigit_padded 4 _) (length_padded (by decide) (by omega)),
            value_padded, hyear]
      · rw [List.cons_append, year?_plus, number?_signed hdash, Option.map_some, hyear]

/-- A fraction of so many digits counts units of the last of them. -/
private theorem fraction?_padded {width n : Nat} (hwidth : 0 < width) (hnine : width ≤ 9)
    (hn : n < 10 ^ width) :
    fraction? ('.' :: padded width n ++ ['Z']) = some (n * 10 ^ (9 - width), ['Z']) := by
  have hall := all_isDigit_padded width n
  have hlength := length_padded hwidth hn
  have hend : Stops isDigit ['Z'] := stops_cons (by decide)
  have hfits : (padded width n).length ≤ 9 := by rwa [hlength]
  rw [List.cons_append]
  simp only [fraction?, number?_digits hall (padded_ne_nil width n) hfits (Or.inr hend),
    taken_digits hall hfits (Or.inr hend), dropWhile_append_stops hall hend, value_padded, hlength,
    Option.bind_eq_bind, Option.bind_some, Nat.pow_eq]

theorem fraction?_fractionText {nano : Nat} (h : nano < 1000000000) :
    fraction? (fractionText nano ++ ['Z']) = some (nano, ['Z']) := by
  unfold fractionText
  split
  · next hzero =>
      rw [hzero]
      rfl
  · split
    · rw [fraction?_padded (by decide) (by decide) (by omega)]
      congr 2
      omega
    · split
      · rw [fraction?_padded (by decide) (by decide) (by omega)]
        congr 2
        omega
      · rw [fraction?_padded (by decide) (by decide) (by omega)]
        congr 2
        omega

/-- The clock shows hours, minutes and seconds, and the fraction apart. A leap second is
shown as second 60. -/
theorem assemble?_shown {t : Instant} (h : t.IsValid) :
    assemble? (Date.ofDay t.day) (t.second / 3600) (t.second / 60 % 60)
      (t.second % 60 + t.nano / 1000000000) (t.nano % 1000000000) 0 = some t := by
  obtain ⟨hcalendar, hsecond, hnano⟩ := h
  have hyear := Date.year_ofDay (Instant.isInCalendar_iff.mp hcalendar).1
    (Instant.isInCalendar_iff.mp hcalendar).2
  have hleap : (t.second % 60 + t.nano / 1000000000) / 60 = t.nano / 1000000000 := by omega
  have hclock : t.second / 3600 * 3600 + t.second / 60 % 60 * 60 +
      (t.second % 60 + t.nano / 1000000000 - t.nano / 1000000000) = t.second := by omega
  have hfraction : t.nano % 1000000000 + t.nano / 1000000000 * 1000000000 = t.nano := by omega
  have hmoment : Instant.ofSeconds (t.day * Instant.secondsPerDay + t.second - 0) t.nano = t := by
    obtain ⟨day, second, nano⟩ := t
    simp only [Instant.ofSeconds, Instant.secondsPerDay] at hsecond ⊢
    congr 1 <;> omega
  rw [assemble?]
  simp only [hleap, hclock, hfraction, Date.toDay_ofDay, Date.isValid_ofDay, hyear, and_self,
    if_true, hmoment, Instant.inCalendar?, hcalendar]

theorem literal?_cons {c : Char} (hc : isWhiteSpace c = false) :
    literal? c (c :: rest) = some rest := by
  simp [literal?, skip, hc]

theorem readChars?_localText {t : Instant} (h : t.IsValid) :
    readChars? (localText t ++ ['Z']) = some t := by
  obtain ⟨hmonth, hmonths, hday, hdays⟩ := Date.isValid_ofDay t.day
  have hlong := Nat.le_trans hdays (Date.daysInMonth_le _ _)
  have hassemble := assemble?_shown h
  obtain ⟨-, hsecond, hnano⟩ := h
  have hdash : isWhiteSpace '-' = false := by decide
  have hcolon : isWhiteSpace ':' = false := by decide
  have hfraction : t.nano % 1000000000 < 1000000000 := Nat.mod_lt _ (by decide)
  simp only [readChars?, localText, dateText, timeText, List.append_assoc, List.cons_append]
  rw [year?_yearText]
  simp only [Option.bind_eq_bind, Option.bind_some, literal?_cons hdash]
  rw [field?_padded (by omega) hmonth hmonths]
  simp only [Option.bind_some, literal?_cons hdash]
  rw [field?_padded (by omega) hday hlong]
  simp only [Option.bind_some]
  rw [field?_padded (by omega) (by omega) (by omega)]
  simp only [Option.bind_some, literal?_cons hcolon]
  rw [field?_padded (by omega) (by omega) (by omega)]
  simp only [Option.bind_some, literal?_cons hcolon]
  rw [field?_padded (by omega) (by omega) (by omega)]
  simp only [Option.bind_some]
  rw [fraction?_fractionText hfraction]
  exact hassemble

/-- A moment that was written for the wire is read back. -/
theorem read?_wireText {t : Instant} (h : t.IsValid) : read? (wireText t) = some t := by
  rw [read?, wireText, String.toList_ofList]
  exact readChars?_localText h

end Rfc3339

end OrderLedger.Time
