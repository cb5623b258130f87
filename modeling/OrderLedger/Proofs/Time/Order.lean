import OrderLedger.Proofs.Text.Order
import OrderLedger.Proofs.Time.Rfc3339
import OrderLedger.Store.Timeline

/-!
Time in the tables sorts by its text. Dates sort as their days do; hours, minutes, seconds and
the fraction follow, each in so many digits that the text decides as the clock does. This holds
for the years that have four digits; a later year carries a sign and sorts before all of them.
-/

namespace OrderLedger.Time

namespace Date

/-- Earlier by year, month and day. -/
def Before (a b : Date) : Prop :=
  a.year < b.year ∨ a.year = b.year ∧ (a.month < b.month ∨ a.month = b.month ∧ a.day < b.day)

/-- The year that started in March. -/
def marchYear (d : Date) : Int := if d.month ≤ 2 then d.year - 1 else d.year

/-- Months since March. -/
def marchMonth (d : Date) : Nat := if d.month ≤ 2 then d.month + 9 else d.month - 3

/-- Days since March. -/
def marchDay (d : Date) : Int := ((153 * d.marchMonth + 2) / 5 : Int) + d.day - 1

/-- The days up to the March of a year. -/
def yearStart (year : Int) : Int :=
  year / 400 * cycleDays + (year % 400 * 365 + year % 400 / 4 - year % 400 / 100)

theorem toDay_eq (d : Date) : d.toDay = yearStart d.marchYear + d.marchDay - epochOffset := by
  unfold toDay yearStart marchDay marchYear marchMonth
  simp only []
  omega

/-- A year has 365 days, and 366 if its February is that of a leap year. -/
theorem yearStart_succ (year : Int) :
    yearStart (year + 1) = yearStart year + if isLeapYear (year + 1) then 366 else 365 := by
  have hleap : isLeapYear (year + 1) = true ↔
      (year + 1) % 4 = 0 ∧ ((year + 1) % 100 ≠ 0 ∨ (year + 1) % 400 = 0) := by
    simp [isLeapYear]
  unfold yearStart cycleDays
  split
  · next h =>
      rw [hleap] at h
      omega
  · next h =>
      rw [hleap] at h
      omega

theorem yearStart_le {a b : Int} (h : a ≤ b) : yearStart a ≤ yearStart b := by
  obtain ⟨n, rfl⟩ := Int.le.dest h
  clear h
  induction n with
  | zero => simp
  | succ n ih =>
      have hnext := yearStart_succ (a + n)
      rw [Int.natCast_succ, ← Int.add_assoc, hnext]
      split <;> omega

/-- A month ends before the next one starts. -/
theorem day_le_of_isValid {d : Date} (h : d.IsValid) (hmonth : d.month ≠ 2) :
    (d.day : Int) ≤ (153 * (d.marchMonth + 1) + 2) / 5 - (153 * d.marchMonth + 2) / 5 := by
  obtain ⟨year, month, day⟩ := d
  obtain ⟨hfirst, hlast, -, hday⟩ := h
  dsimp only [marchMonth] at *
  have hmonths : month = 1 ∨ month = 3 ∨ month = 4 ∨ month = 5 ∨ month = 6 ∨ month = 7 ∨
      month = 8 ∨ month = 9 ∨ month = 10 ∨ month = 11 ∨ month = 12 := by omega
  rcases hmonths with rfl | rfl | rfl | rfl | rfl | rfl | rfl | rfl | rfl | rfl | rfl <;>
    simp [daysInMonth] at hday ⊢ <;> omega

theorem marchDay_lt {d : Date} (h : d.IsValid) :
    0 ≤ d.marchDay ∧ yearStart d.marchYear + d.marchDay < yearStart (d.marchYear + 1) := by
  have hlong := day_le_of_isValid h
  obtain ⟨hfirst, hlast, hpositive, hday⟩ := h
  refine ⟨by unfold marchDay; omega, ?_⟩
  rw [yearStart_succ]
  by_cases hfebruary : d.month = 2
  · have hyear : d.marchYear + 1 = d.year := by simp [marchYear, hfebruary]
    have hmonth : d.marchMonth = 11 := by simp [marchMonth, hfebruary]
    rw [hfebruary, daysInMonth_february] at hday
    rw [hyear, marchDay, hmonth]
    split at hday <;> simp_all <;> omega
  · have hdays := hlong hfebruary
    have hmonth : d.marchMonth ≤ 10 := by
      unfold marchMonth
      split <;> omega
    have hshort : d.marchDay < 365 := by
      unfold marchDay
      omega
    split <;> omega

theorem toDay_lt {a b : Date} (ha : a.IsValid) (hb : b.IsValid) (h : a.Before b) :
    a.toDay < b.toDay := by
  have hmarch : a.marchYear < b.marchYear ∨ a.marchYear = b.marchYear ∧
      (a.marchMonth < b.marchMonth ∧ a.month ≠ 2 ∨
        a.marchMonth = b.marchMonth ∧ a.day < b.day) := by
    obtain ⟨hfirst, hlast, -⟩ := ha
    obtain ⟨hfirst', hlast', -⟩ := hb
    unfold Before at h
    unfold marchYear marchMonth
    split <;> split <;> omega
  rw [toDay_eq, toDay_eq]
  have hlong := day_le_of_isValid ha
  obtain ⟨-, hend⟩ := marchDay_lt ha
  obtain ⟨hstart, -⟩ := marchDay_lt hb
  rcases hmarch with hyear | ⟨hyear, ⟨hmonth, hfebruary⟩ | ⟨hmonth, hday⟩⟩
  · have hnext := yearStart_le (show a.marchYear + 1 ≤ b.marchYear by omega)
    omega
  · have hdays := hlong hfebruary
    have hpositive := hb.2.2.1
    rw [hyear]
    unfold marchDay
    omega
  · rw [hyear]
    unfold marchDay
    omega

theorem before_or_eq (a b : Date) : a.Before b ∨ a = b ∨ b.Before a := by
  obtain ⟨year, month, day⟩ := a
  obtain ⟨year', month', day'⟩ := b
  simp only [Date.mk.injEq, Before]
  omega

/-- A later day has a later date. -/
theorem ofDay_before {a b : Int} (h : a < b) : (ofDay a).Before (ofDay b) := by
  rcases before_or_eq (ofDay a) (ofDay b) with hless | hsame | hback
  · exact hless
  · have hday := congrArg toDay hsame
    rw [toDay_ofDay, toDay_ofDay] at hday
    omega
  · have hless := toDay_lt (isValid_ofDay b) (isValid_ofDay a) hback
    rw [toDay_ofDay, toDay_ofDay] at hless
    omega

end Date

/-- A moment of a year that has four digits. -/
def Instant.IsPlain (t : Instant) : Prop :=
  t.IsValid ∧ 0 ≤ (Date.ofDay t.day).year ∧ (Date.ofDay t.day).year ≤ 9999

instance (t : Instant) : Decidable t.IsPlain := inferInstanceAs (Decidable (_ ∧ _))

namespace Rfc3339

open OrderLedger.Text Decimal

/-- The offset of universal time, with which a stored timestamp ends. -/
def zone : List Char := ['+', '0', '0', ':', '0', '0']

theorem toList_storedText (t : Instant) : (storedText t).toList = localText t ++ zone := by
  have hzone : "+00:00".toList = zone := by decide
  rw [storedText, String.toList_ofList, hzone]

/-- Groups of three digits up to the last one that is not zero. -/
def groupsText : List Nat → List Char
  | [] => []
  | n :: rest => if n = 0 ∧ ∀ m ∈ rest, m = 0 then [] else padded 3 n ++ groupsText rest

private theorem not_lt_of_zeros {ms ns : List Nat} (hlength : ms.length = ns.length)
    (hzeros : ∀ n ∈ ns, n = 0) : ¬ ms < ns := by
  induction ns generalizing ms with
  | nil => exact List.not_lt_nil ms
  | cons n ns ih =>
      obtain ⟨rfl, hrestZeros⟩ := List.forall_mem_cons.mp hzeros
      cases ms with
      | nil => cases hlength
      | cons m ms =>
          rw [List.cons_lt_cons_iff]
          rintro (hfirst | ⟨-, hrest⟩)
          · exact Nat.not_lt_zero m hfirst
          · exact ih (Nat.succ_injective hlength) hrestZeros hrest

theorem zone_lt_padded (width n : Nat) (cs : List Char) : zone < padded width n ++ cs := by
  obtain ⟨c, ds, hpadded, hdigit⟩ := exists_head_padded width n
  rw [hpadded, List.cons_append, zone, List.cons_lt_cons_iff]
  left
  rw [isDigit_iff] at hdigit
  exact Nat.lt_of_lt_of_le (by decide : 43 < 48) hdigit.1

/-- Groups sort as their numbers do, for the offset sorts before every digit. -/
theorem groupsText_lt {ms ns : List Nat} (hlength : ms.length = ns.length)
    (hms : ∀ m ∈ ms, m < 1000) (hns : ∀ n ∈ ns, n < 1000) (h : ms < ns) :
    groupsText ms ++ zone < groupsText ns ++ zone := by
  induction ms generalizing ns with
  | nil =>
      rw [List.eq_nil_of_length_eq_zero hlength.symm] at h
      cases h
  | cons m ms ih =>
      cases ns with
      | nil => cases hlength
      | cons n ns =>
          rw [List.forall_mem_cons] at hms hns
          have hrest (hless : ms < ns) := ih (Nat.succ_injective hlength) hms.2 hns.2 hless
          have hsome : ¬ (n = 0 ∧ ∀ k ∈ ns, k = 0) := fun hzeros =>
            not_lt_of_zeros hlength (List.forall_mem_cons.mpr hzeros) h
          rw [groupsText, groupsText, if_neg hsome]
          split
          · rw [List.append_assoc, List.nil_append]
            exact zone_lt_padded _ _ _
          · rw [List.append_assoc, List.append_assoc]
            exact padded_append_lt (by decide) hms.1 hns.1
              ((List.cons_lt_cons_iff.mp h).imp_right (And.imp_right hrest))

theorem fractionText_eq (nano : Nat) :
    fractionText nano = if nano = 0 then [] else
      '.' :: groupsText [nano / 1000000, nano / 1000 % 1000, nano % 1000] := by
  have hmicros : nano % 1000000 = 0 ↔ nano / 1000 % 1000 = 0 ∧ nano % 1000 = 0 := by omega
  have hnine : padded 9 nano =
      padded 3 (nano / 1000000) ++ (padded 3 (nano / 1000 % 1000) ++ padded 3 (nano % 1000)) := by
    rw [← List.append_assoc, ← padded_thousands (by decide) (Nat.mod_lt _ (by decide)),
      ← padded_thousands (by decide) (Nat.mod_lt _ (by decide))]
    congr 1
    omega
  have hsix : padded 6 (nano / 1000) =
      padded 3 (nano / 1000000) ++ padded 3 (nano / 1000 % 1000) := by
    rw [← padded_thousands (by decide) (Nat.mod_lt _ (by decide))]
    congr 1
    omega
  unfold fractionText
  split
  · rfl
  · next hpositive =>
      simp only [groupsText, List.forall_mem_cons, List.append_nil]
      by_cases hlast : nano % 1000 = 0
      · by_cases hmiddle : nano / 1000 % 1000 = 0
        · have hfirst : nano / 1000000 ≠ 0 := by omega
          simp [hmicros, hlast, hmiddle, hfirst]
        · simp [hmicros, hlast, hmiddle, hsix]
      · simp [hmicros, hlast, hnine]

/-- The less fraction sorts first, whatever its number of digits. -/
theorem fractionText_lt {m n : Nat} (h : m < n) (hn : n < 1000000000) :
    fractionText m ++ zone < fractionText n ++ zone := by
  rw [fractionText_eq m, fractionText_eq n, if_neg (by omega : n ≠ 0)]
  split
  · rw [List.nil_append, List.cons_append, zone, List.cons_lt_cons_iff]
    exact Or.inl (by decide)
  · rw [List.cons_append, List.cons_append, List.cons_lt_cons_iff]
    refine Or.inr ⟨rfl, groupsText_lt rfl ?_ ?_ ?_⟩
    · simp only [List.forall_mem_cons, List.not_mem_nil, false_implies, implies_true, and_true]
      omega
    · simp only [List.forall_mem_cons, List.not_mem_nil, false_implies, implies_true, and_true]
      omega
    · simp only [List.cons_lt_cons_iff, List.not_lt_nil, and_false, or_false]
      omega

/-- A stored timestamp of a year with four digits. -/
theorem stored_eq {t : Instant} (h : t.IsPlain) :
    localText t ++ zone = padded 4 (Date.ofDay t.day).year.toNat ++
      '-' :: (padded 2 (Date.ofDay t.day).month ++ '-' :: (padded 2 (Date.ofDay t.day).day ++
      'T' :: (padded 2 (t.second / 3600) ++ ':' :: (padded 2 (t.second / 60 % 60) ++
      ':' :: (padded 2 (t.second % 60 + t.nano / 1000000000) ++
        (fractionText (t.nano % 1000000000) ++ zone)))))) := by
  obtain ⟨-, hstart, hend⟩ := h
  rw [localText, dateText, timeText, yearText, if_neg (Int.not_lt.mpr hstart), if_pos hend]
  simp only [List.append_assoc, List.cons_append]

/-- The calendar goes on from years over months to days, and then to the clock. -/
theorem date_before {a b : Instant} (ha : a.IsPlain) (h : a < b) :
    (Date.ofDay a.day).year.toNat < (Date.ofDay b.day).year.toNat ∨
      (Date.ofDay a.day).year.toNat = (Date.ofDay b.day).year.toNat ∧
        ((Date.ofDay a.day).month < (Date.ofDay b.day).month ∨
          (Date.ofDay a.day).month = (Date.ofDay b.day).month ∧
            ((Date.ofDay a.day).day < (Date.ofDay b.day).day ∨
              (Date.ofDay a.day).day = (Date.ofDay b.day).day ∧
                (a.second < b.second ∨ a.second = b.second ∧ a.nano < b.nano))) := by
  have hstart := ha.2.1
  rcases h with hday | ⟨hday, hclock⟩
  · rcases Date.ofDay_before hday with hyear | ⟨hyear, hmonth | ⟨hmonth, hdayOfMonth⟩⟩
    · left
      omega
    · exact Or.inr ⟨congrArg Int.toNat hyear, Or.inl hmonth⟩
    · exact Or.inr ⟨congrArg Int.toNat hyear, Or.inr ⟨hmonth, Or.inl hdayOfMonth⟩⟩
  · rw [hday]
    exact Or.inr ⟨rfl, Or.inr ⟨rfl, Or.inr ⟨rfl, hclock⟩⟩⟩

/-- The clock goes on from hours over minutes and seconds to the fraction. -/
theorem clock_before {a b : Instant} (ha : a.IsValid) (hb : b.IsValid)
    (h : a.second < b.second ∨ a.second = b.second ∧ a.nano < b.nano) :
    a.second / 3600 < b.second / 3600 ∨ a.second / 3600 = b.second / 3600 ∧
      (a.second / 60 % 60 < b.second / 60 % 60 ∨ a.second / 60 % 60 = b.second / 60 % 60 ∧
        (a.second % 60 + a.nano / 1000000000 < b.second % 60 + b.nano / 1000000000 ∨
          a.second % 60 + a.nano / 1000000000 = b.second % 60 + b.nano / 1000000000 ∧
            a.nano % 1000000000 < b.nano % 1000000000)) := by
  obtain ⟨-, hsecond, hnano⟩ := ha
  obtain ⟨-, hsecond', hnano'⟩ := hb
  omega

theorem cons_lt_cons {c : Char} {us vs : List Char} (h : us < vs) : c :: us < c :: vs :=
  List.cons_lt_cons_iff.mpr (Or.inr ⟨rfl, h⟩)

/-- The earlier moment sorts first. -/
theorem stored_lt {a b : Instant} (ha : a.IsPlain) (hb : b.IsPlain) (h : a < b) :
    localText a ++ zone < localText b ++ zone := by
  rw [stored_eq ha, stored_eq hb]
  have hbefore := date_before ha h
  obtain ⟨hvalid, hstart, hend⟩ := ha
  obtain ⟨hvalid', hstart', hend'⟩ := hb
  obtain ⟨-, hmonths, -, hdays⟩ := Date.isValid_ofDay a.day
  obtain ⟨-, hmonths', -, hdays'⟩ := Date.isValid_ofDay b.day
  have hlong := Nat.le_trans hdays (Date.daysInMonth_le _ _)
  have hlong' := Nat.le_trans hdays' (Date.daysInMonth_le _ _)
  have hclock := clock_before hvalid hvalid'
  obtain ⟨-, hsecond, hnano⟩ := hvalid
  obtain ⟨-, hsecond', hnano'⟩ := hvalid'
  -- Every field has a width of its own, so the first field that differs decides.
  refine padded_append_lt (by decide) (by omega) (by omega) ?_
  refine hbefore.imp_right (And.imp_right fun hmonth =>
    cons_lt_cons (padded_append_lt (by decide) (by omega) (by omega) ?_))
  refine hmonth.imp_right (And.imp_right fun hday =>
    cons_lt_cons (padded_append_lt (by decide) (by omega) (by omega) ?_))
  refine hday.imp_right (And.imp_right fun htime =>
    cons_lt_cons (padded_append_lt (by decide) (by omega) (by omega) ?_))
  refine (hclock htime).imp_right (And.imp_right fun hminute =>
    cons_lt_cons (padded_append_lt (by decide) (by omega) (by omega) ?_))
  refine hminute.imp_right (And.imp_right fun hsecond =>
    cons_lt_cons (padded_append_lt (by decide) (by omega) (by omega) ?_))
  refine hsecond.imp_right (And.imp_right fun hfraction => ?_)
  exact fractionText_lt hfraction (Nat.mod_lt _ (by decide))

end Rfc3339

namespace Instant

theorem lt_or_eq (a b : Instant) : a < b ∨ a = b ∨ b < a := by
  obtain ⟨day, second, nano⟩ := a
  obtain ⟨day', second', nano'⟩ := b
  rw [Instant.mk.injEq]
  change (day < day' ∨ day = day' ∧ (second < second' ∨ second = second' ∧ nano < nano')) ∨ _ ∨
    (day' < day ∨ day' = day ∧ (second' < second ∨ second' = second ∧ nano' < nano))
  omega

theorem le_refl (t : Instant) : t ≤ t := by
  change ¬ (t.day < t.day ∨
    t.day = t.day ∧ (t.second < t.second ∨ t.second = t.second ∧ t.nano < t.nano))
  omega

end Instant

/-- The earlier moment has the lesser text. -/
theorem Rfc3339.storedText_lt_iff {a b : Instant} (ha : a.IsPlain) (hb : b.IsPlain) :
    storedText a < storedText b ↔ a < b := by
  have hstored {a b : Instant} (ha : a.IsPlain) (hb : b.IsPlain) (h : a < b) :
      storedText a < storedText b := by
    rw [String.lt_iff, toList_storedText, toList_storedText]
    exact stored_lt ha hb h
  refine ⟨fun hless => ?_, hstored ha hb⟩
  rcases Instant.lt_or_eq a b with h | rfl | h
  · exact h
  · exact absurd hless (String.lt_irrefl _)
  · exact absurd hless (String.lt_asymm (hstored hb ha h))

end OrderLedger.Time

namespace OrderLedger.Store

open OrderLedger.Time

/-- In the years of four digits, time in the tables is compared as the clock compares it. -/
theorem notAfter_iff {a b : Instant} (ha : a.IsPlain) (hb : b.IsPlain) :
    notAfter a b = true ↔ ¬ b < a := by
  rw [notAfter, decide_eq_true_iff, ← String.not_lt, Rfc3339.storedText_lt_iff hb ha]

/-- A moment of a year with more digits sorts before every moment of a year with four. -/
theorem notAfter_of_late {a b : Instant} (ha : 9999 < (Date.ofDay a.day).year) (hb : b.IsPlain) :
    notAfter a b = true := by
  have hsigned : ∃ cs, Rfc3339.localText a ++ Rfc3339.zone = '+' :: cs := by
    rw [Rfc3339.localText, Rfc3339.dateText, Rfc3339.yearText, if_neg (by omega),
      if_neg (Int.not_le.mpr ha)]
    exact ⟨_, rfl⟩
  obtain ⟨cs, hcs⟩ := hsigned
  obtain ⟨c, ds, hpadded, hdigit⟩ :=
    Text.Decimal.exists_head_padded 4 (Date.ofDay b.day).year.toNat
  rw [Text.Decimal.isDigit_iff] at hdigit
  have hfirst : '+' < c := Nat.lt_of_lt_of_le (by decide : 43 < 48) hdigit.1
  rw [notAfter, decide_eq_true_iff, ← String.not_lt, String.lt_iff, Rfc3339.toList_storedText,
    Rfc3339.toList_storedText, hcs, Rfc3339.stored_eq hb, hpadded, List.cons_append,
    List.cons_lt_cons_iff]
  rintro (hless | ⟨rfl, -⟩)
  · exact Nat.lt_asymm hless hfirst
  · exact Nat.lt_irrefl _ hfirst

end OrderLedger.Store
