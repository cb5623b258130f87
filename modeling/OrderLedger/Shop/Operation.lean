import OrderLedger.Shop.GivingBack
import OrderLedger.Shop.HandingOver
import OrderLedger.Shop.Paying
import OrderLedger.Shop.Placing
import OrderLedger.Shop.StockKeeping

/-!
The operations of the shop as values, so that a run of the shop is a list of them.
-/

namespace OrderLedger

inductive Operation where
  | place (r : OrderRequest)
  | pay (orderId : String) (tenders : List Tender) (key : Option String)
  | cancel (orderId : String)
  | refund (orderId : String)
  /-- Delete an order that is still pending. -/
  | discard (orderId : String)
  /-- Delete the pending orders of an attempt, one order excepted. -/
  | reap (attemptId keptId : String)
  | handOverLines (lineIds : List String)
  | handOverOrder (orderId : String)
  | append (entries : List StockEntry)
  | enter (productId : String) (delta : Int) (reason : Reason) (actor : String)
  /-- Delete the remembered answers that have expired. -/
  | purge
  deriving DecidableEq, Repr

/-- What an operation answers. -/
inductive Reply where
  | placed (o : Outcome OrderReceipt)
  | paid (o : Outcome PaymentReceipt)
  | order (o : Order)
  | flag (b : Bool)
  | count (n : Nat)
  | events (es : List StockEvent)
  | event (e : StockEvent)
  deriving DecidableEq, Repr

namespace Shop

/-- The same result with its value told as a reply. -/
def Result.reply {α : Type} (f : α → Reply) (r : Result α) : Result Reply := (r.1.map f, r.2)

def perform (call : Call) (operation : Operation) (shop : Shop) : Result Reply :=
  match operation with
  | .place r => (shop.place call r).reply .placed
  | .pay orderId tenders key => (shop.pay call orderId tenders key).reply .paid
  | .cancel orderId => (shop.cancel call orderId).reply .order
  | .refund orderId => (shop.refund call orderId).reply .order
  | .discard orderId => (shop.discard call orderId).reply .flag
  | .reap attemptId keptId => (shop.reap call attemptId keptId).reply .count
  | .handOverLines lineIds => (shop.handOverLines call lineIds).reply .count
  | .handOverOrder orderId => (shop.handOverOrder call orderId).reply .count
  | .append entries => (shop.append call entries).reply .events
  | .enter productId delta reason actor =>
      (shop.enter call productId delta reason actor).reply .event
  | .purge => (shop.purge call).reply .count

end Shop

end OrderLedger
