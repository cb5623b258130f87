import Mathlib.Data.List.Lex
import OrderLedger.Proofs.Text.Decimal

/-!
Texts in the order of their characters. A difference between parts of one length decides
whatever stands behind them, and numbers that are padded to one width sort by their value.
-/

namespace OrderLedger.Text

/-- Where the first parts have one length and differ, they decide. -/
theorem append_lt_append {xs ys : List Char} (hlength : xs.length = ys.length) (h : xs < ys)
    (us vs : List Char) : xs ++ us < ys ++ vs := by
  induction xs generalizing ys with
  | nil =>
      rw [List.eq_nil_of_length_eq_zero hlength.symm] at h
      cases h
  | cons x xs ih =>
      cases ys with
      | nil => cases hlength
      | cons y ys =>
          rw [List.cons_append, List.cons_append, List.cons_lt_cons_iff]
          rcases List.cons_lt_cons_iff.mp h with hfirst | ⟨hsame, hrest⟩
          · exact Or.inl hfirst
          · exact Or.inr ⟨hsame, ih (Nat.succ_injective hlength) hrest⟩

namespace Decimal

theorem digitChar_lt {m n : Nat} (h : m < n) (hn : n < 10) : digitChar m < digitChar n := by
  have hall : ∀ b : Fin 10, ∀ a : Fin 10, a.val < b.val → digitChar a.val < digitChar b.val := by
    decide
  exact hall ⟨n, hn⟩ ⟨m, Nat.lt_trans h hn⟩ h

theorem padded_one {n : Nat} (h : n < 10) : padded 1 n = [digitChar n] := by
  rw [padded, digits, if_pos h]
  rfl

/-- The last digit of a padded number stands behind the others. -/
theorem padded_succ {width : Nat} (hwidth : 0 < width) (n : Nat) :
    padded (width + 1) n = padded width (n / 10) ++ [digitChar (n % 10)] := by
  obtain ⟨width, rfl⟩ := Nat.exists_eq_succ_of_ne_zero (Nat.pos_iff_ne_zero.mp hwidth)
  by_cases hsmall : n < 10
  · have hzero : n / 10 = 0 := Nat.div_eq_of_lt hsmall
    have hdigits : digits 0 = ['0'] := by
      rw [digits]
      rfl
    rw [padded, padded, hzero, Nat.mod_eq_of_lt hsmall, hdigits, digits, if_pos hsmall]
    simp only [List.length_singleton, Nat.add_sub_cancel, Nat.succ_eq_add_one]
    rw [List.replicate_succ']
  · rw [padded, padded, digits, if_neg hsmall, List.length_append, List.length_singleton,
      Nat.add_sub_add_right, List.append_assoc]

/-- Padded to one width, the less number sorts first. -/
theorem padded_lt {width m n : Nat} (h : m < n) (hn : n < 10 ^ width) :
    padded width m < padded width n := by
  induction width generalizing m n with
  | zero => omega
  | succ width ih =>
      rcases Nat.eq_zero_or_pos width with rfl | hwidth
      · have hsmall : n < 10 := hn
        rw [padded_one (Nat.lt_trans h hsmall), padded_one hsmall, List.cons_lt_cons_iff]
        exact Or.inl (digitChar_lt h hsmall)
      · have htens : n / 10 < 10 ^ width := by
          rw [Nat.pow_succ] at hn
          omega
        rw [padded_succ hwidth, padded_succ hwidth]
        rcases Nat.lt_or_ge (m / 10) (n / 10) with hless | hmore
        · refine append_lt_append ?_ (ih hless htens) _ _
          rw [length_padded hwidth htens, length_padded hwidth (Nat.lt_trans hless htens)]
        · have hsame : m / 10 = n / 10 := by omega
          rw [hsame]
          apply List.append_left_lt
          rw [List.cons_lt_cons_iff]
          exact Or.inl (digitChar_lt (by omega) (Nat.mod_lt _ (by decide)))

/-- Numbers of one width decide first, and equal ones leave it to what stands behind them. -/
theorem padded_append_lt {width m n : Nat} {us vs : List Char} (hwidth : 0 < width)
    (hm : m < 10 ^ width) (hn : n < 10 ^ width) (h : m < n ∨ m = n ∧ us < vs) :
    padded width m ++ us < padded width n ++ vs := by
  rcases h with hless | ⟨rfl, hrest⟩
  · refine append_lt_append ?_ (padded_lt hless hn) us vs
    rw [length_padded hwidth hm, length_padded hwidth hn]
  · exact List.append_left_lt hrest

/-- A padded number starts with a digit. -/
theorem exists_head_padded (width n : Nat) :
    ∃ c cs, padded width n = c :: cs ∧ isDigit c = true := by
  have hall := all_isDigit_padded width n
  cases hpadded : padded width n with
  | nil => exact absurd hpadded (padded_ne_nil width n)
  | cons c cs =>
      rw [hpadded, List.all_cons, Bool.and_eq_true] at hall
      exact ⟨c, cs, rfl, hall.1⟩

/-- A number in front of three more digits. -/
theorem padded_thousands {width a b : Nat} (hwidth : 0 < width) (hb : b < 1000) :
    padded (width + 3) (1000 * a + b) = padded width a ++ padded 3 b := by
  have hhundreds : b / 10 / 10 < 10 := by omega
  have hthousands : (1000 * a + b) / 10 / 10 / 10 = a := by omega
  have htens : (1000 * a + b) / 10 % 10 = b / 10 % 10 := by omega
  have hsecond : (1000 * a + b) / 10 / 10 % 10 = b / 10 / 10 := by omega
  have hlast : (1000 * a + b) % 10 = b % 10 := by omega
  rw [padded_succ (by omega), padded_succ (by omega), padded_succ hwidth, hthousands, htens,
    hsecond, hlast, padded_succ (by decide : 0 < 2) b, padded_succ (by decide : 0 < 1),
    padded_one hhundreds]
  simp only [List.append_assoc]

end Decimal

end OrderLedger.Text
