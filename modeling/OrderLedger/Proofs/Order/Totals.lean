import Mathlib.Algebra.Order.Group.Int
import OrderLedger.Proofs.Calculations
import OrderLedger.Proofs.Word

/-!
The total of an order. It is told exactly when every subtotal and every running total of the
priced lines fits in 64 bits, and then it is their exact sum. It is added up in two ways, one
that refuses a sum that does not fit and one that breaks off, and they agree.
-/

namespace OrderLedger

/-- What each priced line adds to the total. -/
def Line.subtotals (lines : List Line) : List Int :=
  (lines.filter (·.type.isPriced)).map fun l => l.unitPrice.cents * l.quantity

namespace Line

variable {l : Line} {lines more : List Line}

theorem subtotals_cons_of_pos (h : l.type.isPriced = true) :
    subtotals (l :: lines) = l.unitPrice.cents * l.quantity :: subtotals lines := by
  simp [subtotals, h]

theorem subtotals_cons_of_neg (h : ¬ l.type.isPriced = true) :
    subtotals (l :: lines) = subtotals lines := by
  simp [subtotals, h]

theorem subtotals_append : subtotals (lines ++ more) = subtotals lines ++ subtotals more := by
  rw [subtotals, List.filter_append, List.map_append]
  rfl

theorem subtotals_nonneg (h : ∀ l ∈ lines, 0 ≤ l.unitPrice.cents ∧ 0 ≤ l.quantity) :
    0 ≤ (subtotals lines).sum := by
  apply List.sum_nonneg
  intro n hn
  obtain ⟨l, hl, rfl⟩ := List.mem_map.mp hn
  obtain ⟨hprice, hquantity⟩ := h l (List.mem_of_mem_filter hl)
  exact Int.mul_nonneg hprice hquantity

end Line

/-- The subtotals of the priced lines and their running totals, from the first line on, all fit
in 64 bits. -/
structure Line.InRange (lines : List Line) : Prop where
  subtotals : ∀ n ∈ Line.subtotals lines, Word.Fits n
  totals : ∀ run, run <+: Line.subtotals lines → Word.Fits run.sum

namespace Line

open Calculation

variable {start total m : Money} {l : Line} {lines : List Line} {cause : Overflow}

/-- The subtotals have a running sum in 64 bits exactly where they are in range. -/
theorem sum_eq_some {n : Int} :
    ((∀ k ∈ subtotals lines, Word.Fits k) ∧ Word.sumFrom? 0 (subtotals lines) = some n) ↔
      InRange lines ∧ n = (subtotals lines).sum := by
  rw [Word.sumFrom?_eq_some_iff Word.fits_zero]
  simp only [zero_add]
  constructor
  · rintro ⟨hsubtotals, hsum, hruns⟩
    exact ⟨⟨hsubtotals, hruns⟩, hsum⟩
  · rintro ⟨hrange, hsum⟩
    exact ⟨hrange.subtotals, hsum, hrange.totals⟩

/-- Where no subtotal is negative, the sum is the greatest of the running totals. -/
theorem inRange_of_nonneg (h : ∀ n ∈ subtotals lines, 0 ≤ n) :
    InRange lines ↔ (subtotals lines).sum ≤ Word.greatest := by
  refine ⟨fun hrange => (hrange.totals _ List.prefix_rfl).2, fun hmost => ?_⟩
  have hpositive : Word.least ≤ 0 := by decide
  have hend : Word.Fits (0 + (subtotals lines).sum) := by
    rw [zero_add]
    exact ⟨hpositive.trans (List.sum_nonneg h), hmost⟩
  have hsum := Word.sumFrom?_of_oneSigned (Or.inl h) Word.fits_zero hend
  have hsubtotals : ∀ n ∈ subtotals lines, Word.Fits n := fun n hn =>
    ⟨hpositive.trans (h n hn), (List.single_le_sum h n hn).trans hmost⟩
  exact (sum_eq_some.mp ⟨hsubtotals, hsum⟩).1

theorem subtotal_eq_ok :
    l.subtotal = .ok m ↔
      Word.Fits (l.unitPrice.cents * l.quantity) ∧ m = ⟨l.unitPrice.cents * l.quantity⟩ := by
  rw [subtotal, Money.times, Word.multiply, map_eq_ok]
  simp only [require_eq_ok, Word.narrow?_eq_some_iff, and_assoc, exists_and_left, exists_eq_left]

theorem totalFrom_eq_ok :
    totalFrom start lines = .ok total ↔
      (∀ n ∈ subtotals lines, Word.Fits n) ∧
        Word.sumFrom? start.cents (subtotals lines) = some total.cents := by
  induction lines generalizing start with
  | nil =>
      obtain ⟨start⟩ := start
      obtain ⟨total⟩ := total
      simp [totalFrom, subtotals, Word.sumFrom?]
  | cons l rest ih =>
      unfold totalFrom
      split
      · next hpriced =>
          rw [subtotals_cons_of_pos hpriced, List.forall_mem_cons, Word.sumFrom?,
            Option.bind_eq_some_iff]
          simp only [bind_eq_ok, subtotal_eq_ok, Money.add, Word.add, Word.add?, map_eq_ok,
            require_eq_ok, ih]
          constructor
          · rintro ⟨_, ⟨hfits, rfl⟩, _, ⟨sum, hsum, rfl⟩, hrest, htotal⟩
            exact ⟨⟨hfits, hrest⟩, sum, hsum, htotal⟩
          · rintro ⟨⟨hfits, hrest⟩, sum, hsum, htotal⟩
            exact ⟨_, ⟨hfits, rfl⟩, _, ⟨sum, hsum, rfl⟩, hrest, htotal⟩
      · next hfree => rw [subtotals_cons_of_neg hfree, ih]

/-- A total breaks off at a multiplication or at an addition. -/
theorem totalFrom_eq_error (h : totalFrom start lines = .error cause) :
    cause = .multiply ∨ cause = .add := by
  induction lines generalizing start with
  | nil => cases h
  | cons l rest ih =>
      unfold totalFrom at h
      split at h
      · simp only [bind_eq_error, subtotal, Money.times, Word.multiply, Money.add, Word.add,
          map_eq_error, require_eq_error] at h
        obtain ⟨-, hcause⟩ | ⟨_, -, ⟨-, hcause⟩ | ⟨_, -, hrest⟩⟩ := h
        · exact Or.inl hcause
        · exact Or.inr hcause
        · exact ih hrest
      · exact ih h

/-- All lines but the components are priced. -/
theorem priced_eq (lines : List Line) :
    priced lines = lines.filter fun l => l.type ≠ .component := by
  apply List.filter_congr
  intro l _
  cases l.type <;> rfl

theorem priced_cons_of_pos (h : l.type.isPriced = true) :
    priced (l :: lines) = l :: priced lines :=
  List.filter_cons_of_pos h

theorem priced_cons_of_neg (h : ¬ l.type.isPriced = true) : priced (l :: lines) = priced lines :=
  List.filter_cons_of_neg h

theorem totalFrom_priced : totalFrom start (priced lines) = totalFrom start lines := by
  induction lines generalizing start with
  | nil => rfl
  | cons l rest ih =>
      by_cases hpriced : l.type.isPriced = true
      · rw [priced_cons_of_pos hpriced]
        simp only [totalFrom, ih]
      · rw [priced_cons_of_neg hpriced, ih]
        simp only [totalFrom, if_neg hpriced]

theorem total_eq_ok :
    Line.total lines = .ok total ↔ InRange lines ∧ total.cents = (subtotals lines).sum := by
  rw [Line.total, totalFrom_eq_ok]
  exact sum_eq_some

theorem total_of_not_inRange (h : ¬ InRange lines) :
    Line.total lines = .error .multiply ∨ Line.total lines = .error .add := by
  cases htotal : Line.total lines with
  | ok total => exact absurd (total_eq_ok.mp htotal).1 h
  | error cause =>
      rcases totalFrom_eq_error htotal with rfl | rfl
      · exact Or.inl rfl
      · exact Or.inr rfl

end Line

namespace Draft

variable {start total : Money} {lines : List Line}

/-- One more subtotal is added where it fits and the sum with it fits. -/
theorem addSubtotal_eq_some {l : Line} :
    (l.unitPrice.times? l.quantity).bind start.add? = some total ↔
      Word.Fits (l.unitPrice.cents * l.quantity) ∧
        Word.add? start.cents (l.unitPrice.cents * l.quantity) = some total.cents := by
  simp only [Money.times?, Word.multiply?, Money.add?, Option.bind_eq_some_iff,
    Option.map_eq_some_iff, Word.narrow?_eq_some_iff]
  constructor
  · rintro ⟨_, ⟨_, ⟨hfits, rfl⟩, rfl⟩, sum, hsum, rfl⟩
    exact ⟨hfits, hsum⟩
  · rintro ⟨hfits, hsum⟩
    exact ⟨_, ⟨_, ⟨hfits, rfl⟩, rfl⟩, _, hsum, rfl⟩

theorem checkedTotalFrom_eq_ok :
    checkedTotalFrom start lines = .ok total ↔
      (∀ n ∈ Line.subtotals lines, Word.Fits n) ∧
        Word.sumFrom? start.cents (Line.subtotals lines) = some total.cents := by
  induction lines generalizing start with
  | nil =>
      obtain ⟨start⟩ := start
      obtain ⟨total⟩ := total
      simp [checkedTotalFrom, Line.subtotals, Word.sumFrom?]
  | cons l rest ih =>
      unfold checkedTotalFrom
      split
      · next hpriced =>
          rw [Line.subtotals_cons_of_pos hpriced, List.forall_mem_cons, Word.sumFrom?,
            Option.bind_eq_some_iff]
          split
          · next sum hsum =>
              obtain ⟨hfits, hadd⟩ := addSubtotal_eq_some.mp hsum
              rw [ih, hadd]
              simp [hfits]
          · next hnone =>
              simp only [reduceCtorEq, false_iff]
              rintro ⟨⟨hfits, -⟩, sum, hadd, -⟩
              have hsome : (l.unitPrice.times? l.quantity).bind start.add? = some ⟨sum⟩ :=
                addSubtotal_eq_some.mpr ⟨hfits, hadd⟩
              rw [hnone] at hsome
              cases hsome
      · next hfree => rw [Line.subtotals_cons_of_neg hfree, ih]

theorem checkedTotalFrom_eq_error {e : RuleError}
    (h : checkedTotalFrom start lines = .error e) : e = totalOverflow := by
  induction lines generalizing start with
  | nil => cases h
  | cons l rest ih =>
      unfold checkedTotalFrom at h
      split at h
      · split at h
        · exact ih h
        · cases h
          rfl
      · exact ih h

theorem checkedTotalFrom_priced :
    checkedTotalFrom start (Line.priced lines) = checkedTotalFrom start lines := by
  induction lines generalizing start with
  | nil => rfl
  | cons l rest ih =>
      by_cases hpriced : l.type.isPriced = true
      · rw [Line.priced_cons_of_pos hpriced]
        simp only [checkedTotalFrom, ih]
      · rw [Line.priced_cons_of_neg hpriced, ih]
        simp only [checkedTotalFrom, if_neg hpriced]

theorem checkedTotal_eq_ok :
    checkedTotal lines = .ok total ↔
      Line.InRange lines ∧ total.cents = (Line.subtotals lines).sum := by
  rw [checkedTotal, checkedTotalFrom_eq_ok]
  exact Line.sum_eq_some

theorem checkedTotal_of_not_inRange (h : ¬ Line.InRange lines) :
    checkedTotal lines = .error totalOverflow := by
  cases htotal : checkedTotal lines with
  | ok total => exact absurd (checkedTotal_eq_ok.mp htotal).1 h
  | error e => rw [checkedTotalFrom_eq_error htotal]

end Draft

end OrderLedger
