import OrderLedger.Money
import OrderLedger.Proofs.Calculations
import OrderLedger.Proofs.Text.Decimal
import OrderLedger.Proofs.Text.Spans

/-!
How amounts are written. The sign, the whole units and the cents are taken apart before they are
written, so that words of 64 bits hold every number on the way, also for the least amount, whose
absolute value they do not hold. The text is a decimal with two places, and reading it gives the
amount back, so no two amounts are written alike.
-/

namespace OrderLedger

namespace Word

open Calculation

/-- The absolute value in a word of 64 bits. -/
def absolute (n : Int) : Except Overflow Int := if n < 0 then negate n else .ok n

theorem absolute_eq_ok {n : Int} (hn : least < n) (hmost : n ≤ greatest) :
    absolute n = .ok n.natAbs := by
  unfold least at hn
  unfold greatest at hmost
  unfold absolute
  split
  · refine negate_eq_ok.mpr ⟨?_, by omega⟩
    unfold Fits least greatest
    omega
  · rw [Int.natAbs_of_nonneg (by omega)]

/-- The least number has no absolute value in its range. -/
theorem absolute_least : absolute least = .error .negate := by decide

end Word

namespace Money

open Text Decimal Calculation

variable {m : Money} {cs : List Char}

/-- The text of an amount as words of 64 bits compute it. Every number on the way has to fit. -/
def charsInWords (m : Money) : Except Overflow (List Char) := do
  let units ← Word.absolute m.units
  let remainder ← Word.absolute (m.cents.tmod 100)
  return (if m.cents < 0 then ['-'] else []) ++ digits units.toNat ++
    '.' :: padded 2 remainder.toNat

/-- Reads digits, a point and two more digits as a number of hundredths. -/
def hundredths? (cs : List Char) : Option Nat :=
  match cs.dropWhile isDigit with
  | ['.', a, b] => do
      let whole ← natural? (cs.takeWhile isDigit)
      let places ← natural? [a, b]
      some (100 * whole + places)
  | _ => none

/-- Reads a decimal with two places, and a minus in front of it. -/
def ofChars? : List Char → Option Money
  | '-' :: cs => (hundredths? cs).map fun n : Nat => ⟨-(n : Int)⟩
  | cs => (hundredths? cs).map fun n : Nat => ⟨(n : Int)⟩

theorem natAbs_units (m : Money) : m.units.natAbs = m.cents.natAbs / 100 := Int.natAbs_tdiv _ _

theorem remainder_eq (m : Money) : m.remainder = m.cents.natAbs % 100 := Int.natAbs_tmod _ _

theorem charsInWords_eq (hm : Word.Fits m.cents) : m.charsInWords = .ok m.chars := by
  have hunits := m.natAbs_units
  have hremainder : (m.cents.tmod 100).natAbs = m.cents.natAbs % 100 := m.remainder_eq
  unfold Word.Fits Word.least Word.greatest at hm
  simp only [charsInWords, chars]
  rw [Word.absolute_eq_ok (by unfold Word.least; omega) (by unfold Word.greatest; omega),
    Word.absolute_eq_ok (by unfold Word.least; omega) (by unfold Word.greatest; omega)]
  rfl

theorem hundredths?_digits (whole places : Nat) (hplaces : places < 100) :
    hundredths? (digits whole ++ '.' :: padded 2 places) = some (100 * whole + places) := by
  have hpoint : Stops isDigit ('.' :: padded 2 places) := stops_cons (by decide)
  have htwo : natural? (padded 2 places) = some places := by
    rw [natural?_eq_some (padded_ne_nil 2 places) (all_isDigit_padded 2 places), value_padded]
  obtain ⟨a, b, hab⟩ := List.length_eq_two.mp (length_padded (by decide : 0 < 2) hplaces)
  rw [hab] at hpoint htwo ⊢
  rw [hundredths?, dropWhile_append_stops (all_isDigit_digits whole) hpoint,
    takeWhile_append_stops (all_isDigit_digits whole) hpoint]
  simp only [natural?_eq_some (digits_ne_nil whole) (all_isDigit_digits whole), htwo,
    value_digits, Option.bind_eq_bind, Option.bind_some]

theorem ofChars?_minus (cs : List Char) :
    ofChars? ('-' :: cs) = (hundredths? cs).map fun n : Nat => ⟨-(n : Int)⟩ := rfl

theorem ofChars?_unsigned (h : cs.head? ≠ some '-') :
    ofChars? cs = (hundredths? cs).map fun n : Nat => ⟨(n : Int)⟩ := by
  unfold ofChars?
  split
  · exact absurd rfl h
  · rfl

/-- Whole units start with a digit, so only the sign is a minus. -/
theorem head?_unsigned (n : Nat) (cs : List Char) : (digits n ++ cs).head? ≠ some '-' := by
  have hall := all_isDigit_digits n
  cases hdigits : digits n with
  | nil => exact absurd hdigits (digits_ne_nil n)
  | cons c ds =>
      rw [hdigits, List.all_cons, Bool.and_eq_true] at hall
      intro hhead
      exact ne_of_isDigit hall.1 (by decide) (Option.some.inj hhead)

theorem head?_chars : m.chars.head? = some '-' ↔ m.cents < 0 := by
  unfold chars
  split
  · next hnegative => exact iff_of_true rfl hnegative
  · next hpositive => exact iff_of_false (head?_unsigned _ _) hpositive

/-- An amount is read back from its text. -/
theorem ofChars?_chars (m : Money) : ofChars? m.chars = some m := by
  have hread := hundredths?_digits m.units.natAbs m.remainder (by rw [remainder_eq]; omega)
  have hwhole : 100 * m.units.natAbs + m.remainder = m.cents.natAbs := by
    rw [natAbs_units, remainder_eq]
    omega
  unfold chars
  split
  · rw [List.append_assoc, List.singleton_append, ofChars?_minus, hread, Option.map_some, hwhole,
      Int.ofNat_natAbs_of_nonpos (by omega), Int.neg_neg]
  · rw [List.nil_append, ofChars?_unsigned (head?_unsigned _ _), hread, Option.map_some, hwhole,
      Int.natAbs_of_nonneg (by omega)]

/-- How an amount is written: a minus where it is negative, whole units without zeros in front, a
point and two digits. -/
structure IsWritten (m : Money) (cs : List Char) : Prop where
  parts : ∃ whole a b, cs = (if m.cents < 0 then ['-'] else []) ++ whole ++ ['.', a, b] ∧
    whole ≠ [] ∧ (∀ c ∈ whole, isDigit c = true) ∧ (whole.head? = some '0' → whole = ['0']) ∧
    isDigit a = true ∧ isDigit b = true
  read : ofChars? cs = some m

theorem digits_of_head_zero {n : Nat} (h : (digits n).head? = some '0') : digits n = ['0'] := by
  rcases Nat.eq_zero_or_pos n with rfl | hpositive
  · rw [digits]
    rfl
  · obtain ⟨c, cs, hdigits, hc⟩ := exists_head_digits hpositive
    rw [hdigits] at h
    exact absurd (Option.some.inj h) hc

theorem isWritten_chars (m : Money) : m.IsWritten m.chars := by
  have hlength : (padded 2 m.remainder).length = 2 :=
    length_padded (by decide) (by rw [remainder_eq]; omega)
  have hplaces := all_isDigit_padded 2 m.remainder
  obtain ⟨a, b, hab⟩ := List.length_eq_two.mp hlength
  rw [hab] at hplaces
  simp only [List.all_cons, List.all_nil, Bool.and_true, Bool.and_eq_true] at hplaces
  refine ⟨⟨digits m.units.natAbs, a, b, ?_, digits_ne_nil _, ?_, digits_of_head_zero, hplaces⟩,
    m.ofChars?_chars⟩
  · rw [chars, hab]
  · exact List.all_eq_true.mp (all_isDigit_digits _)

theorem toList_text (m : Money) : m.text.toList = m.chars := String.toList_ofList

/-- Words of 64 bits hold every step of writing any amount that they hold. The text has the form
of an amount and is read back as the amount, so different amounts have different texts; a minus
stands in front of the negative ones and no others. -/
theorem amounts_are_written_exactly (m : Money) :
    (Word.Fits m.cents → Word.Fits m.units ∧ Word.Fits (m.cents.tmod 100) ∧
      m.charsInWords = .ok m.text.toList) ∧
    m.IsWritten m.text.toList ∧
    (∀ other : Money, other.text = m.text → other = m) ∧
    (m.text.toList.head? = some '-' ↔ m.cents < 0) := by
  rw [toList_text]
  refine ⟨fun hm => ⟨?_, ?_, charsInWords_eq hm⟩, isWritten_chars m, ?_, head?_chars⟩
  · have hunits := m.natAbs_units
    unfold Word.Fits Word.least Word.greatest at hm ⊢
    omega
  · have hremainder : (m.cents.tmod 100).natAbs = m.cents.natAbs % 100 := m.remainder_eq
    unfold Word.Fits Word.least Word.greatest
    omega
  · intro other hsame
    have hchars : other.chars = m.chars := by rw [← toList_text, ← toList_text, hsame]
    have hread := other.ofChars?_chars
    rw [hchars, ofChars?_chars, Option.some.injEq] at hread
    exact hread.symm

/-- The least amount is written, though it has no absolute value, and a few cents below zero keep
their sign. -/
theorem texts_of_debts :
    Word.absolute Word.least = .error .negate ∧
    (⟨Word.least⟩ : Money).charsInWords = .ok "-92233720368547758.08".toList ∧
    (⟨Word.least⟩ : Money).IsWritten "-92233720368547758.08".toList ∧
    (⟨-7⟩ : Money).IsWritten "-0.07".toList ∧
    (⟨7⟩ : Money).text ≠ (⟨-7⟩ : Money).text := by
  have hleast : (⟨Word.least⟩ : Money).text.toList = "-92233720368547758.08".toList := by
    have hunits : digits 92233720368547758 = "92233720368547758".toList := by
      simp [digits, digitChar]
    have hcents : padded 2 8 = "08".toList := by
      simp [padded, digits, digitChar]
    rw [toList_text]
    change '-' :: digits 92233720368547758 ++ '.' :: padded 2 8 = _
    rw [hunits, hcents]
    rfl
  have hfew : (⟨-7⟩ : Money).text.toList = "-0.07".toList := by
    have hunits : digits 0 = "0".toList := by
      simp [digits, digitChar]
    have hcents : padded 2 7 = "07".toList := by
      simp [padded, digits, digitChar]
    rw [toList_text]
    change '-' :: digits 0 ++ '.' :: padded 2 7 = _
    rw [hunits, hcents]
    rfl
  obtain ⟨hwords, hwritten, -⟩ := amounts_are_written_exactly ⟨Word.least⟩
  obtain ⟨-, hdebt, hdistinct, -⟩ := amounts_are_written_exactly ⟨-7⟩
  obtain ⟨-, -, hcomputed⟩ := hwords (by decide)
  refine ⟨Word.absolute_least, hleast ▸ hcomputed, hleast ▸ hwritten, hfew ▸ hdebt, ?_⟩
  intro hsame
  cases hdistinct ⟨7⟩ hsame

end Money

end OrderLedger
