import Mathlib.Data.List.Pairwise

/-!
Sorting keeps rows in their order that it does not tell apart.
-/

namespace OrderLedger.Sorting

variable {α : Type} {before : α → α → Bool} {selects : α → Bool}

/-- Rows of which each may stand before each other are in order already, so sorting keeps them
as a sublist. -/
theorem filter_mergeSort (htrans : ∀ a b c, before a b = true → before b c = true →
    before a c = true) (htotal : ∀ a b, (before a b || before b a) = true) (rows : List α)
    (hsame : ∀ a b, selects a = true → selects b = true → before a b = true) :
    (rows.mergeSort before).filter selects = rows.filter selects := by
  have hordered : (rows.filter selects).Pairwise fun a b => before a b = true := by
    apply List.pairwise_of_forall_mem_list
    intro a ha b hb
    exact hsame a b (List.mem_filter.mp ha).2 (List.mem_filter.mp hb).2
  have hkept := (List.sublist_mergeSort htrans htotal hordered List.filter_sublist).filter selects
  rw [List.filter_filter] at hkept
  simp only [Bool.and_self] at hkept
  exact (hkept.eq_of_length ((List.mergeSort_perm rows before).filter _).length_eq.symm).symm

end OrderLedger.Sorting
