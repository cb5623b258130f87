import OrderLedger.Json.Wire

/-!
Handing lines over to the customer. A line has at most one such mark.
-/

namespace OrderLedger

structure HandOver where
  id : String
  lineId : String
  handedOverAt : Time.Instant
  deriving DecidableEq, Repr

instance : Wire HandOver where
  encode h := .obj [
    ("id", Wire.encode h.id), ("order_line_id", Wire.encode h.lineId),
    ("redeemed_at", Wire.encode h.handedOverAt)]
  decode? j := do
    let m ← Members.ofJson? ["id", "order_line_id", "redeemed_at"] 3 j
    some {
      id := ← m.required? "id"
      lineId := ← m.required? "order_line_id"
      handedOverAt := ← m.required? "redeemed_at" }

end OrderLedger
