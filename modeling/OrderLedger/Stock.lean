import OrderLedger.Json.Wire
import OrderLedger.Tally

/-!
Stock. It is never stored: the stock of a product is the sum of the signed entries
of a ledger that only grows. Every batch of entries is announced with one event per
product that it touches.
-/

namespace OrderLedger

/-- Why stock changed. -/
inductive Reason where
  | openingBalance
  | sale
  | refund
  | manualAdjust
  | correction
  deriving DecidableEq, Repr

instance : Named Reason where
  all := [.openingBalance, .sale, .refund, .manualAdjust, .correction]
  name
    | .openingBalance => "opening_balance"
    | .sale => "sale"
    | .refund => "refund"
    | .manualAdjust => "manual_adjust"
    | .correction => "correction"

/-- Who or what caused an entry. -/
structure Provenance where
  orderId : Option String
  lineId : Option String
  deviceId : Option String
  actor : Option String
  deriving DecidableEq, Repr

namespace Provenance

def unknown : Provenance := ⟨none, none, none, none⟩

def ofLine (orderId lineId : String) : Provenance :=
  { unknown with orderId := some orderId, lineId := some lineId }

def ofActor (actor : String) : Provenance := { unknown with actor := some actor }

/-- Stamps the device, if there is one. -/
def onDevice (p : Provenance) (deviceId : Option String) : Provenance :=
  { p with deviceId := deviceId.or p.deviceId }

instance : Wire Provenance where
  encode p := .obj [
    ("order_id", Wire.encode p.orderId), ("order_line_id", Wire.encode p.lineId),
    ("device_id", Wire.encode p.deviceId), ("actor", Wire.encode p.actor)]
  decode? j := do
    let m ← Members.ofJson? ["order_id", "order_line_id", "device_id", "actor"] 4 j
    some {
      orderId := ← m.optional? "order_id"
      lineId := ← m.optional? "order_line_id"
      deviceId := ← m.optional? "device_id"
      actor := ← m.optional? "actor" }

end Provenance

/-- One signed change of stock. -/
structure StockEntry where
  id : String
  productId : String
  delta : Int
  reason : Reason
  provenance : Provenance
  createdAt : Time.Instant
  deriving DecidableEq, Repr

namespace StockEntry

instance : Wire StockEntry where
  encode e := .obj [
    ("id", Wire.encode e.id), ("product_id", Wire.encode e.productId),
    ("delta", Wire.encode e.delta), ("reason", Wire.encode e.reason),
    ("order_id", Wire.encode e.provenance.orderId),
    ("order_line_id", Wire.encode e.provenance.lineId),
    ("device_id", Wire.encode e.provenance.deviceId), ("actor", Wire.encode e.provenance.actor),
    ("created_at", Wire.encode e.createdAt)]
  decode? j := do
    let m ← Members.ofJson?
      ["id", "product_id", "delta", "reason", "order_id", "order_line_id", "device_id", "actor",
       "created_at"] 9 j
    some {
      id := ← m.required? "id"
      productId := ← m.required? "product_id"
      delta := ← m.required? "delta"
      reason := ← m.required? "reason"
      provenance := {
        orderId := ← m.optional? "order_id"
        lineId := ← m.optional? "order_line_id"
        deviceId := ← m.optional? "device_id"
        actor := ← m.optional? "actor" }
      createdAt := ← m.required? "created_at" }

/-- The changes that entries make, by product. -/
def changes (entries : List StockEntry) : List (String × Int) :=
  entries.map fun e => (e.productId, e.delta)

/-- The changes that entries make to one product. -/
def deltasOf (entries : List StockEntry) (productId : String) : List Int :=
  (entries.filter fun e => e.productId == productId).map (·.delta)

end StockEntry

/-- What subscribers learn when a batch of entries changed the stock of a product. -/
structure StockEvent where
  productId : String
  newStock : Int
  /-- The net change of the batch. -/
  delta : Int
  timestamp : Time.Instant
  deriving DecidableEq, Repr

instance : Wire StockEvent where
  encode e := .obj [
    ("productId", Wire.encode e.productId), ("newStock", Wire.encode e.newStock),
    ("delta", Wire.encode e.delta), ("timestamp", Wire.encode e.timestamp)]
  decode? j := do
    let m ← Members.ofJson? ["productId", "newStock", "delta", "timestamp"] 4 j
    some {
      productId := ← m.required? "productId"
      newStock := ← m.required? "newStock"
      delta := ← m.required? "delta"
      timestamp := ← m.required? "timestamp" }

/-- What selling may do to the stock of a product. -/
inductive OversellPolicy where
  /-- Sell regardless; the stock is corrected afterwards. -/
  | allow
  /-- Refuse an order that would take any product below zero. -/
  | refuse
  deriving DecidableEq, Repr

instance : Named OversellPolicy where
  all := [.allow, .refuse]
  name
    | .allow => "allow_oversell"
    | .refuse => "reject_insufficient"

end OrderLedger
