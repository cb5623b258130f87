import OrderLedger.Proofs.Store.Heedless
import OrderLedger.Shop.Operation

/-!
The transactions of the shop that do not look at the remembered answers. These are all that claim
no key; placing and paying are such work but for the claim at their start and the answer that is
kept at their end.
-/

namespace OrderLedger.Shop

open Work

variable {α : Type} {settings : Settings} {call : Call}

theorem heedless_stored {work : Work StorageError α} (h : Heedless work) :
    Heedless (stored work) := heedless_recast h

theorem heedless_silently {work : Work ShopError (Closing α)} (h : Heedless work) :
    Heedless (silently work) := by
  refine heedless_bind h fun closing => ?_
  cases closing <;> exact heedless_pure _

theorem heedless_findOrder (id : String) : Heedless (findOrder id) := by
  refine heedless_get_bind (fun s records => rfl) fun s => ?_
  split
  · exact heedless_pure _
  · exact heedless_fail _

theorem heedless_checkMove (source target : Status) : Heedless (checkMove source target) := by
  unfold checkMove
  split
  · exact heedless_pure _
  · exact heedless_fail _

theorem heedless_appendWork (entries : List StockEntry) (now : Time.Instant) :
    Heedless (appendWork entries now) :=
  heedless_bind (heedless_stored (Store.heedless_appendEntries entries)) fun _ =>
    heedless_stored (Store.heedless_events entries now)

theorem heedless_checkStock (d : Draft) : Heedless (checkStock d) := by
  refine heedless_bind (heedless_calculate _) fun needed =>
    heedless_bind (heedless_stored (heedless_ask fun _ _ => rfl)) fun stock => ?_
  split
  · exact heedless_fail _
  · exact heedless_pure _

theorem heedless_writeOrder (settings : Settings) (call : Call) (d : Draft) :
    Heedless (writeOrder settings call d) :=
  heedless_bind (heedless_stored (Store.heedless_insertOrder d.order)) fun _ =>
    heedless_bind (heedless_stored (Store.heedless_insertLines d.lines)) fun _ =>
      heedless_bind (heedless_calculate _) fun _ => heedless_appendWork _ _

theorem heedless_settle (orderId : String) (payments : List Payment) (now : Time.Instant) :
    Heedless (settle orderId payments now) := by
  refine heedless_bind (heedless_findOrder orderId) fun order =>
    heedless_bind (heedless_checkMove _ _) fun _ =>
      heedless_bind (heedless_stored (Store.heedless_insertPayments payments)) fun _ =>
        heedless_bind (Store.heedless_transition _ _ _ _) fun moved => ?_
  split
  · exact heedless_bind (heedless_findOrder orderId) fun _ => heedless_pure _
  · exact heedless_fail _

theorem heedless_reverseWork (settings : Settings) (call : Call) (orderId : String)
    (target : Status) (reason : Reason) :
    Heedless (reverseWork settings call orderId target reason) := by
  refine heedless_bind (heedless_findOrder orderId) fun order =>
    heedless_bind (heedless_checkMove _ _) fun _ =>
      heedless_bind (Store.heedless_transition _ _ _ _) fun moved => ?_
  split
  · exact heedless_get_bind (fun _ _ => rfl) fun s => heedless_bind (heedless_calculate _)
      fun _ => heedless_bind (heedless_appendWork _ _) fun _ =>
        heedless_bind (heedless_findOrder orderId) fun _ => heedless_pure _
  · exact heedless_fail _

theorem heedless_deletePending (settings : Settings) (now : Time.Instant) (ids : Nat → String)
    (orderId : String) : Heedless (deletePending settings now ids orderId) := by
  refine heedless_get_bind (fun _ _ => rfl) fun s =>
    heedless_bind (Store.heedless_deleteIfPending orderId) fun deleted => ?_
  split
  · exact heedless_bind (heedless_calculate _) fun entries =>
      heedless_bind (heedless_stored (Store.heedless_appendEntries entries)) fun _ =>
        heedless_pure _
  · exact heedless_pure _

theorem heedless_discardWork (settings : Settings) (call : Call) (orderId : String) :
    Heedless (discardWork settings call orderId) := by
  refine heedless_bind (heedless_deletePending settings call.now call.ids orderId) fun found => ?_
  split
  · exact heedless_pure _
  · exact heedless_bind (heedless_stored (Store.heedless_events _ _)) fun _ => heedless_pure _

theorem heedless_deleteEach (settings : Settings) (now : Time.Instant) (ids : Nat → String)
    (orderIds : List String) : Heedless (deleteEach settings now ids orderIds) := by
  induction orderIds generalizing ids with
  | nil => exact heedless_pure _
  | cons orderId rest ih =>
      exact heedless_bind (heedless_deletePending settings now ids orderId) fun _ =>
        heedless_bind (ih _) fun _ => heedless_pure _

theorem heedless_reapWork (settings : Settings) (call : Call) (attemptId keptId : String) :
    Heedless (reapWork settings call attemptId keptId) := by
  refine heedless_get_bind (fun _ _ => rfl) fun s =>
    heedless_bind (heedless_deleteEach settings call.now call.ids _) fun found => ?_
  dsimp only
  split
  · exact heedless_pure _
  · exact heedless_bind (heedless_stored (Store.heedless_events _ _)) fun _ => heedless_pure _

theorem heedless_handOverLines (call : Call) (lineIds : List String) :
    Heedless (stored (Store.handOver call.now call.ids lineIds)) :=
  heedless_stored (Store.heedless_handOver call.now call.ids lineIds)

theorem heedless_handOverOrderWork (call : Call) (orderId : String) :
    Heedless (handOverOrderWork call orderId) := by
  refine heedless_bind (heedless_findOrder orderId) fun order => ?_
  split
  · exact heedless_bind (heedless_fail _) fun _ => heedless_get_bind (fun _ _ => rfl) fun s =>
      heedless_bind (heedless_handOverLines call _) fun _ => heedless_pure _
  · exact heedless_get_bind (fun _ _ => rfl) fun s =>
      heedless_bind (heedless_handOverLines call _) fun _ => heedless_pure _

end OrderLedger.Shop
