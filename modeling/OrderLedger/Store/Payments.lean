import OrderLedger.Store.Orders

/-!
Payments in the store.
-/

namespace OrderLedger.Store

def insertPayment (p : Payment) : Statement := fun s =>
  if p.amount.cents < 0 then .error (.checkFailed "amount_cents >= 0")
  else if s.payments.any (fun q => q.id == p.id) then .error (.duplicateRow "order_payments.id")
  else if s.hasOrder p.orderId then .ok { s with payments := s.payments ++ [p] }
  else .error .danglingReference

def insertPayments (payments : List Payment) : Work StorageError Unit :=
  payments.forM fun p => Work.execute (insertPayment p)

/-- The payments of an order, oldest first. -/
def paymentsOf (s : Store) (orderId : String) : List Payment :=
  chronological (·.paidAt) (s.payments.filter fun p => p.orderId == orderId)

/-- What was paid for an order, added up in the order of insertion. -/
def totalPaid (s : Store) (orderId : String) : Except StorageError Int :=
  match Word.sum? ((s.payments.filter fun p => p.orderId == orderId).map (·.amount.cents)) with
  | some total => .ok total
  | none => .error .sumOverflow

end OrderLedger.Store
