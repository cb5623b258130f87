import OrderLedger.Order.Basic

/-!
Payments. An order may be settled with several tenders at once. The gratis
methods record orders given away; their amount is for reporting only.
-/

namespace OrderLedger

inductive PaymentMethod where
  | cash
  | card
  | twint
  | gratisGuest
  | gratisVip
  | gratisStaff
  | gratisLoyalty
  deriving DecidableEq, Repr

namespace PaymentMethod

instance : Named PaymentMethod where
  all := [.cash, .card, .twint, .gratisGuest, .gratisVip, .gratisStaff, .gratisLoyalty]
  name
    | .cash => "cash"
    | .card => "card"
    | .twint => "twint"
    | .gratisGuest => "gratis-guest"
    | .gratisVip => "gratis-vip"
    | .gratisStaff => "gratis-staff"
    | .gratisLoyalty => "gratis-loyalty"

def isGratis : PaymentMethod → Bool
  | .cash | .card | .twint => false
  | .gratisGuest | .gratisVip | .gratisStaff | .gratisLoyalty => true

end PaymentMethod

structure Tender where
  method : PaymentMethod
  amount : Money
  deriving DecidableEq, Repr

instance : Wire Tender where
  encode t := .obj [("method", Wire.encode t.method), ("amount_cents", Wire.encode t.amount)]
  decode? j := do
    let m ← Members.ofJson? ["method", "amount_cents"] 2 j
    some { method := ← m.required? "method", amount := ← m.required? "amount_cents" }

/-- A tender as it was recorded for an order. -/
structure Payment where
  id : String
  orderId : String
  method : PaymentMethod
  amount : Money
  /-- The till that took the payment. -/
  deviceId : Option String
  paidAt : Time.Instant
  deriving DecidableEq, Repr

instance : Wire Payment where
  encode p := .obj [
    ("id", Wire.encode p.id), ("order_id", Wire.encode p.orderId),
    ("method", Wire.encode p.method), ("amount_cents", Wire.encode p.amount),
    ("device_id", Wire.encode p.deviceId), ("paid_at", Wire.encode p.paidAt)]
  decode? j := do
    let m ← Members.ofJson? ["id", "order_id", "method", "amount_cents", "device_id", "paid_at"] 6 j
    some {
      id := ← m.required? "id"
      orderId := ← m.required? "order_id"
      method := ← m.required? "method"
      amount := ← m.required? "amount_cents"
      deviceId := ← m.optional? "device_id"
      paidAt := ← m.required? "paid_at" }

/-- The paid order and the tenders that paid it. -/
structure PaymentReceipt where
  order : Order
  payments : List Payment
  deriving DecidableEq, Repr

instance : Wire PaymentReceipt where
  encode r := .obj [("order", Wire.encode r.order), ("payments", Wire.encode r.payments)]
  decode? j := do
    let m ← Members.ofJson? ["order", "payments"] 2 j
    some { order := ← m.required? "order", payments := ← m.required? "payments" }

end OrderLedger
