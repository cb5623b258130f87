import OrderLedger.Shop.Basic

/-!
Giving stock back. Cancelling and refunding move an order on and keep it; a pending
order may also be deleted. Each way appends, for every line that moves stock, an entry
with what the line had taken.
-/

namespace OrderLedger.Shop

/-- The entries that give the stock of an order's lines back. -/
def restocks (settings : Settings) (now : Time.Instant) (ids : Nat → String) (orderId : String)
    (lines : List Line) (reason : Reason) : Except Overflow (List StockEntry) := do
  entriesFor settings now ids orderId reason (fun m => Word.negate m.delta)
    (← Movement.ofLines lines)

/-- Moves an order to a status that gives its stock back. -/
def reverseWork (settings : Settings) (call : Call) (orderId : String) (target : Status)
    (reason : Reason) : Work ShopError (Closing (Order × List StockEvent)) := do
  let order ← findOrder orderId
  checkMove order.status target
  if ← Store.transition orderId order.status target call.now then
    let lines := (← get).linesOf orderId
    let entries ← Work.calculate (restocks settings call.now call.ids orderId lines reason)
    let events ← appendWork entries call.now
    return .commit (← findOrder orderId, events)
  else Work.fail (.badMove order.status target)

def cancel (call : Call) (orderId : String) (shop : Shop) : Result Order :=
  shop.commit (reverseWork shop.settings call orderId .cancelled .correction)

def refund (call : Call) (orderId : String) (shop : Shop) : Result Order :=
  shop.commit (reverseWork shop.settings call orderId .refunded .refund)

/-- Deletes an order if it is pending and none of its lines was handed over. Returns the
entries that give its stock back. -/
def deletePending (settings : Settings) (now : Time.Instant) (ids : Nat → String)
    (orderId : String) : Work ShopError (Option (List StockEntry)) := do
  let lines := (← get).linesOf orderId
  if ← Store.deleteIfPending orderId then
    let entries ← Work.calculate (restocks settings now ids orderId lines .correction)
    stored (Store.appendEntries entries)
    return some entries
  else return none

/-- Deletes an order if it is deletable, and tells whether it was. -/
def discardWork (settings : Settings) (call : Call) (orderId : String) :
    Work ShopError (Closing (Bool × List StockEvent)) := do
  match ← deletePending settings call.now call.ids orderId with
  | none => return .rollback (false, [])
  | some entries => return .commit (true, ← stored (Store.events entries call.now))

def discard (call : Call) (orderId : String) (shop : Shop) : Result Bool :=
  shop.commit (discardWork shop.settings call orderId)

/-- Deletes those of the orders that are deletable. Returns their number and the entries
that give their stock back. -/
def deleteEach (settings : Settings) (now : Time.Instant) (ids : Nat → String) :
    List String → Work ShopError (Nat × List StockEntry)
  | [] => return (0, [])
  | orderId :: rest => do
      let entries? ← deletePending settings now ids orderId
      let entries := entries?.getD []
      let (count, more) ← deleteEach settings now (fun n => ids (n + entries.length)) rest
      return (count + (if entries?.isSome then 1 else 0), entries ++ more)

/-- Deletes the pending orders of an attempt, one order excepted. -/
def reapWork (settings : Settings) (call : Call) (attemptId keptId : String) :
    Work ShopError (Closing (Nat × List StockEvent)) := do
  let ids := (← get).pendingIds attemptId keptId
  let (count, entries) ← deleteEach settings call.now call.ids ids
  if count = 0 then return .rollback (0, [])
  else return .commit (count, ← stored (Store.events entries call.now))

def reap (call : Call) (attemptId keptId : String) (shop : Shop) : Result Nat :=
  shop.commit (reapWork shop.settings call attemptId keptId)

end OrderLedger.Shop
