import OrderLedger.Shop.Basic

/-!
Handing lines over to the customer, one by one or a paid order as a whole.
-/

namespace OrderLedger.Shop

/-- Hands lines over and counts those that were not handed over before. -/
def handOverLines (call : Call) (lineIds : List String) (shop : Shop) : Result Nat :=
  shop.commit (silently (do
    return .commit (← stored (Store.handOver call.now call.ids lineIds))))

def handOverOrderWork (call : Call) (orderId : String) : Work ShopError (Closing Nat) := do
  let order ← findOrder orderId
  if order.status ≠ .paid then Work.fail (.notPaid orderId order.status)
  let lineIds := ((← get).linesOf orderId).map (·.id)
  return .commit (← stored (Store.handOver call.now call.ids lineIds))

/-- Hands over all lines of a paid order. -/
def handOverOrder (call : Call) (orderId : String) (shop : Shop) : Result Nat :=
  shop.commit (silently (handOverOrderWork call orderId))

end OrderLedger.Shop
