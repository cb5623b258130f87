import OrderLedger.Shop.Paying

/-!
All that a receipt or a pickup screen shows of one order.
-/

namespace OrderLedger

structure OrderDetails where
  order : Order
  lines : List Line
  payments : List Payment
  /-- The lines that were handed over, in the order of the lines. -/
  handedOver : List String
  totalPaid : Money
  deriving DecidableEq, Repr

namespace Shop

def details (store : Store) (orderId : String) : Except (Fault ShopError) OrderDetails :=
  match store.order? orderId with
  | none => .error (.error (.notFound "Order" orderId))
  | some order =>
      let payments := store.paymentsOf orderId
      match totalOf payments with
      | .error cause => .error (.overflow cause)
      | .ok totalPaid =>
          .ok {
            order
            lines := store.linesOf orderId
            payments
            handedOver := store.handedOverLines orderId
            totalPaid }

end Shop

end OrderLedger
