import Mathlib.Algebra.Group.Nat.Defs
import OrderLedger.Text.Blank
import OrderLedger.Text.Decimal

/-!
Padded numbers keep their value, and digits are told from other characters.
-/

namespace OrderLedger.Text.Decimal

theorem isDigit_iff {c : Char} : isDigit c = true ↔ 48 ≤ c.toNat ∧ c.toNat ≤ 57 := by
  simp only [isDigit, Bool.and_eq_true, decide_eq_true_eq]
  rfl

theorem isWhiteSpace_of_isDigit {c : Char} (h : isDigit c = true) : isWhiteSpace c = false := by
  rw [isDigit_iff] at h
  simp only [isWhiteSpace, whiteSpaceRanges, List.any_cons, List.any_nil, Bool.or_false,
    Bool.or_eq_false_iff, Bool.and_eq_false_iff, decide_eq_false_iff_not]
  omega

theorem ne_of_isDigit {c d : Char} (h : isDigit c = true) (hd : isDigit d = false) : c ≠ d := by
  rintro rfl
  rw [h] at hd
  cases hd

theorem natural?_eq_some {ds : List Char} (hne : ds ≠ []) (hall : ds.all isDigit = true) :
    natural? ds = some (value ds) := by
  rw [natural?, List.isEmpty_eq_false_iff.mpr hne, hall]
  rfl

theorem natural?_eq_some_iff {cs : List Char} {n : Nat} :
    natural? cs = some n ↔ cs ≠ [] ∧ cs.all isDigit = true ∧ value cs = n := by
  constructor
  · intro h
    unfold natural? at h
    split at h
    · next hdigits =>
        rw [Bool.and_eq_true, Bool.not_eq_true', List.isEmpty_eq_false_iff] at hdigits
        exact ⟨hdigits.1, hdigits.2, Option.some.inj h⟩
    · cases h
  · rintro ⟨hne, hall, rfl⟩
    exact natural?_eq_some hne hall

/-- A text is read as an unsigned number if it is digits, after a plus or none. -/
theorem unsigned?_eq_some_iff {s : String} {n : Nat} :
    unsigned? s = some n ↔
      ∃ ds, (s.toList = ds ∨ s.toList = '+' :: ds) ∧ ds ≠ [] ∧ ds.all isDigit = true ∧
        value ds = n := by
  have hplus {ds more : List Char} (hall : ds.all isDigit = true) : ds ≠ '+' :: more := by
    rintro rfl
    cases hall
  unfold unsigned?
  split
  · next rest heq =>
      rw [natural?_eq_some_iff, heq]
      constructor
      · intro h
        exact ⟨rest, Or.inr rfl, h⟩
      · rintro ⟨ds, hds | hds, hne, hall, hvalue⟩
        · exact absurd hds.symm (hplus hall)
        · rw [(List.cons.inj hds).2]
          exact ⟨hne, hall, hvalue⟩
  · next hnot =>
      rw [natural?_eq_some_iff]
      constructor
      · intro h
        exact ⟨s.toList, Or.inl rfl, h⟩
      · rintro ⟨ds, hds | hds, h⟩
        · rw [hds]
          exact h
        · exact absurd hds (hnot ds)

private theorem foldl_zeros (k : Nat) (ds : List Char) :
    (List.replicate k '0' ++ ds).foldl (fun n c => 10 * n + digitValue c) 0 =
      ds.foldl (fun n c => 10 * n + digitValue c) 0 := by
  induction k with
  | zero => rfl
  | succ k ih =>
      rw [List.replicate_succ, List.cons_append, List.foldl_cons]
      exact ih

/-- Zeros in front do not change a number. -/
theorem value_padded (width n : Nat) : value (padded width n) = n := by
  rw [padded, value, foldl_zeros, ← value, value_digits]

theorem all_isDigit_padded (width n : Nat) : (padded width n).all isDigit = true := by
  rw [padded, List.all_append, all_isDigit_digits, Bool.and_true, List.all_replicate]
  split
  · rfl
  · decide

theorem padded_ne_nil (width n : Nat) : padded width n ≠ [] := by
  rw [padded]
  intro h
  exact digits_ne_nil n (List.append_eq_nil_iff.mp h).2

/-- Only the number zero starts with a zero. -/
theorem exists_head_digits {n : Nat} (h : 0 < n) : ∃ c cs, digits n = c :: cs ∧ c ≠ '0' := by
  induction n using Nat.strongRecOn with
  | ind n ih =>
      rw [digits]
      split
      · next hsmall =>
          refine ⟨_, _, rfl, ?_⟩
          intro heq
          have hvalue := digitValue_digitChar hsmall
          have hzero : digitValue '0' = 0 := by decide
          rw [heq, hzero] at hvalue
          omega
      · obtain ⟨c, cs, hdigits, hc⟩ := ih (n / 10) (by omega) (by omega)
        rw [hdigits]
        exact ⟨c, _, rfl, hc⟩

theorem length_digits_le {n width : Nat} (hwidth : 0 < width) (h : n < 10 ^ width) :
    (digits n).length ≤ width := by
  induction width generalizing n with
  | zero => omega
  | succ width ih =>
      rw [digits]
      split
      · rw [List.length_singleton]
        omega
      · next hlarge =>
          have hpositive : 0 < width := by
            rcases Nat.eq_zero_or_pos width with rfl | hpositive
            · omega
            · exact hpositive
          rw [List.length_append, List.length_singleton]
          have hrest := ih hpositive (n := n / 10) (by rw [Nat.pow_succ] at h; omega)
          omega

/-- A number that fits is padded to exactly the width. -/
theorem length_padded {n width : Nat} (hwidth : 0 < width) (h : n < 10 ^ width) :
    (padded width n).length = width := by
  have hlength := length_digits_le hwidth h
  rw [padded, List.length_append, List.length_replicate]
  omega

end OrderLedger.Text.Decimal
