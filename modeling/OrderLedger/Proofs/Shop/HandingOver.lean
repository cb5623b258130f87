import OrderLedger.Proofs.Shop.Basic
import OrderLedger.Proofs.Store.HandOvers
import OrderLedger.Shop.HandingOver

/-!
Handing over as an operation. To hand over a paid order is to hand over its lines. A call answers
with the count of its new marks, or it fails and writes nothing: where a line or the order is
missing, and where the order is not paid.
-/

namespace OrderLedger.Shop

open Work

variable {shop after : Shop} {call : Call} {orderId : String} {lineIds : List String} {o : Order}
  {count : Nat} {t : Store}

theorem handOverLines_of_yields
    (h : (Store.handOver call.now call.ids lineIds).Yields shop.store count t) :
    shop.handOverLines call lineIds = (.ok count, { shop with store := t }) := by
  have hwork : (do return Closing.commit (← stored (Store.handOver call.now call.ids lineIds)) :
      Work ShopError (Closing Nat)).Yields shop.store (.commit count) t := by
    simp only [yields_bind, yields_stored, yields_pure]
    exact ⟨count, t, h, rfl, rfl⟩
  exact commit_eq_ok.mpr ⟨[], t, transact_silently.mpr ⟨rfl, transact_of_commit hwork⟩, rfl⟩

theorem handOverLines_of_fails {e : StorageError}
    (h : (Store.handOver call.now call.ids lineIds).Fails shop.store (.error e)) :
    shop.handOverLines call lineIds = (.error (.error (.ofStorage e)), shop) := by
  refine commit_of_fails (fails_silently ?_)
  rw [fails_bind]
  exact Or.inl (fails_recast.mpr ⟨_, h, rfl⟩)

theorem yields_of_handOverLines (h : shop.handOverLines call lineIds = (.ok count, after)) :
    (Store.handOver call.now call.ids lineIds).Yields shop.store count after.store := by
  obtain ⟨events, t, htransact, rfl⟩ := commit_eq_ok.mp h
  obtain ⟨closing, u, hwork, hkept⟩ := transact_eq_ok.mp (transact_silently.mp htransact).2
  simp only [yields_bind, yields_stored, yields_pure] at hwork
  obtain ⟨_, _, hmarks, rfl, rfl⟩ := hwork
  cases hkept
  exact hmarks

/-- Handing over a paid order is handing over its lines. -/
theorem handOverOrder_of_paid (call : Call) (hfound : shop.store.order? orderId = some o)
    (hpaid : o.status = .paid) :
    shop.handOverOrder call orderId =
      shop.handOverLines call ((shop.store.linesOf orderId).map (·.id)) := by
  have hwork : (handOverOrderWork call orderId).runOn shop.store =
      (do return Closing.commit (← stored (Store.handOver call.now call.ids
        ((shop.store.linesOf orderId).map (·.id)))) : Work ShopError (Closing Nat)).runOn
          shop.store := by
    rw [handOverOrderWork, Yields.runOn_bind (yields_findOrder.mpr ⟨hfound, rfl⟩),
      if_neg (not_not_intro hpaid)]
    rfl
  rw [handOverOrder, handOverLines, commit, commit, transact, transact, silently, silently,
    runOn_bind, runOn_bind, hwork]

theorem handOverOrder_absent (call : Call) (hnone : shop.store.order? orderId = none) :
    shop.handOverOrder call orderId = (.error (.error (.notFound "Order" orderId)), shop) := by
  refine commit_of_fails (fails_silently ?_)
  rw [handOverOrderWork, fails_bind, fails_findOrder]
  exact Or.inl ⟨hnone, rfl⟩

theorem handOverOrder_unpaid (call : Call) (hfound : shop.store.order? orderId = some o)
    (hunpaid : o.status ≠ .paid) :
    shop.handOverOrder call orderId = (.error (.error (.notPaid orderId o.status)), shop) := by
  refine commit_of_fails (fails_silently ?_)
  simp only [handOverOrderWork, fails_bind, yields_findOrder]
  refine Or.inr ⟨o, _, ⟨hfound, rfl⟩, ?_⟩
  rw [if_pos hunpaid]
  exact fails_bind.mpr (Or.inl (fails_fail.mpr rfl))

end OrderLedger.Shop
