import Mathlib.Algebra.Order.BigOperators.Group.List
import Mathlib.Algebra.Ring.Int.Defs
import OrderLedger.Word

/-!
When a running sum succeeds: when every one of its intermediate sums fits in 64 bits, and then
it is the exact sum. Amounts of one sign add up as soon as the start and the end fit.
-/

namespace OrderLedger.Word

variable {start total : Int} {ns : List Int}

theorem sumFrom?_cons {n : Int} (hfits : Fits (start + n)) :
    sumFrom? start (n :: ns) = sumFrom? (start + n) ns := by
  rw [sumFrom?, add?, narrow?_eq_some_iff.mpr ⟨hfits, rfl⟩, Option.bind_some]

theorem sumFrom?_eq_some_iff (hstart : Fits start) :
    sumFrom? start ns = some total ↔
      total = start + ns.sum ∧ ∀ run, run <+: ns → Fits (start + run.sum) := by
  induction ns generalizing start with
  | nil =>
      rw [sumFrom?, Option.some.injEq, List.sum_nil, add_zero, eq_comm, iff_self_and]
      rintro - run hrun
      rwa [List.prefix_nil.mp hrun, List.sum_nil, add_zero]
  | cons n ns ih =>
      constructor
      · intro h
        obtain ⟨sum, hsum, h⟩ := Option.bind_eq_some_iff.mp h
        obtain ⟨hfits, rfl⟩ := narrow?_eq_some_iff.mp hsum
        obtain ⟨rfl, hruns⟩ := (ih hfits).mp h
        refine ⟨by rw [List.sum_cons, add_assoc], ?_⟩
        intro run hrun
        obtain rfl | ⟨more, rfl, hmore⟩ := List.prefix_cons_iff.mp hrun
        · rwa [List.sum_nil, add_zero]
        · rw [List.sum_cons, ← add_assoc]
          exact hruns more hmore
      · rintro ⟨rfl, hruns⟩
        have hfits : Fits (start + n) := by
          simpa using hruns [n] (List.prefix_append [n] ns)
        rw [sumFrom?_cons hfits, ih hfits]
        refine ⟨by rw [List.sum_cons, add_assoc], ?_⟩
        intro run hrun
        rw [add_assoc, ← List.sum_cons]
        exact hruns (n :: run) (List.cons_prefix_cons.mpr ⟨rfl, hrun⟩)

/-- A running sum that succeeds is the exact sum, wherever it starts. -/
theorem sumFrom?_eq_sum (h : sumFrom? start ns = some total) : total = start + ns.sum := by
  induction ns generalizing start with
  | nil =>
      cases h
      simp
  | cons n ns ih =>
      obtain ⟨sum, hsum, h⟩ := Option.bind_eq_some_iff.mp h
      obtain ⟨-, rfl⟩ := narrow?_eq_some_iff.mp hsum
      rw [ih h, List.sum_cons, add_assoc]

theorem sumFrom?_fits (hstart : Fits start) (h : sumFrom? start ns = some total) : Fits total := by
  obtain ⟨rfl, hruns⟩ := (sumFrom?_eq_some_iff hstart).mp h
  exact hruns ns List.prefix_rfl

/-- The running sums of amounts of one sign lie between the start and the end. -/
theorem sumFrom?_of_oneSigned (hsigned : (∀ n ∈ ns, 0 ≤ n) ∨ ∀ n ∈ ns, n ≤ 0)
    (hstart : Fits start) (hend : Fits (start + ns.sum)) :
    sumFrom? start ns = some (start + ns.sum) := by
  refine (sumFrom?_eq_some_iff hstart).mpr ⟨rfl, ?_⟩
  rintro run ⟨rest, rfl⟩
  rw [List.sum_append] at hend
  unfold Fits at hstart hend ⊢
  rcases hsigned with hpos | hneg
  · have hrun := List.sum_nonneg fun n hn => hpos n (List.mem_append_left _ hn)
    have hrest := List.sum_nonneg fun n hn => hpos n (List.mem_append_right _ hn)
    omega
  · have hrun := List.sum_le_card_nsmul run 0 fun n hn => hneg n (List.mem_append_left _ hn)
    have hrest := List.sum_le_card_nsmul rest 0 fun n hn => hneg n (List.mem_append_right _ hn)
    rw [nsmul_zero] at hrun hrest
    omega

/-- The sum of numbers that are not negative is told exactly where it fits. -/
theorem sum?_of_nonneg (h : ∀ n ∈ ns, 0 ≤ n) :
    sum? ns = if ns.sum ≤ greatest then some ns.sum else none := by
  have hsum := List.sum_nonneg h
  rw [sum?]
  split
  · next hfits =>
      have hend : Fits (0 + ns.sum) := by
        unfold Fits least
        omega
      rw [sumFrom?_of_oneSigned (Or.inl h) fits_zero hend, zero_add]
  · next hover =>
      refine Option.eq_none_iff_forall_ne_some.mpr fun total htotal => hover ?_
      have hfits := sumFrom?_fits fits_zero htotal
      rw [sumFrom?_eq_sum htotal, zero_add] at hfits
      exact hfits.2

end OrderLedger.Word
