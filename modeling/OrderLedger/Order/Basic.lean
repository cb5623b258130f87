import OrderLedger.Money
import OrderLedger.Order.Status

/-!
Orders and their lines. A line keeps the title and the unit price that the
product had when it was sold, so a later change of the catalog leaves it alone.
-/

namespace OrderLedger

/-- Where an order was placed. -/
inductive Origin where
  | storefront
  | pos
  deriving DecidableEq, Repr

instance : Named Origin where
  all := [.storefront, .pos]
  name
    | .storefront => "storefront"
    | .pos => "pos"

structure Order where
  id : String
  customerId : Option String
  contactEmail : Option String
  total : Money
  status : Status
  origin : Origin
  /-- The checkout attempt that placed the order, if it named one. -/
  attemptId : Option String
  createdAt : Time.Instant
  updatedAt : Time.Instant
  deriving DecidableEq, Repr

instance : Wire Order where
  encode o := .obj [
    ("id", Wire.encode o.id), ("customer_id", Wire.encode o.customerId),
    ("contact_email", Wire.encode o.contactEmail), ("total_cents", Wire.encode o.total),
    ("status", Wire.encode o.status), ("origin", Wire.encode o.origin),
    ("payment_attempt_id", Wire.encode o.attemptId), ("created_at", Wire.encode o.createdAt),
    ("updated_at", Wire.encode o.updatedAt)]
  decode? j := do
    let m ← Members.ofJson?
      ["id", "customer_id", "contact_email", "total_cents", "status", "origin",
       "payment_attempt_id", "created_at", "updated_at"] 9 j
    some {
      id := ← m.required? "id"
      customerId := ← m.optional? "customer_id"
      contactEmail := ← m.optional? "contact_email"
      total := ← m.required? "total_cents"
      status := ← m.required? "status"
      origin := ← m.required? "origin"
      attemptId := ← m.optional? "payment_attempt_id"
      createdAt := ← m.required? "created_at"
      updatedAt := ← m.required? "updated_at" }

inductive LineType where
  /-- A simple product. -/
  | simple
  /-- A menu, which carries the price. -/
  | bundle
  /-- The choice for one slot of a menu, at no price of its own. -/
  | component
  deriving DecidableEq, Repr

namespace LineType

instance : Named LineType where
  all := [.simple, .bundle, .component]
  name
    | .simple => "simple"
    | .bundle => "bundle"
    | .component => "component"

/-- Simple and bundle lines make up the total. -/
def isPriced : LineType → Bool
  | .simple | .bundle => true
  | .component => false

/-- Simple and component lines move stock. -/
def movesStock : LineType → Bool
  | .simple | .component => true
  | .bundle => false

end LineType

structure Line where
  id : String
  orderId : String
  type : LineType
  productId : String
  title : String
  quantity : Int
  unitPrice : Money
  /-- The bundle line that a component belongs to. -/
  parentId : Option String
  slotId : Option String
  slotName : Option String
  createdAt : Time.Instant
  deriving DecidableEq, Repr

instance : Wire Line where
  encode l := .obj [
    ("id", Wire.encode l.id), ("order_id", Wire.encode l.orderId),
    ("line_type", Wire.encode l.type), ("product_id", Wire.encode l.productId),
    ("title", Wire.encode l.title), ("quantity", Wire.encode l.quantity),
    ("unit_price_cents", Wire.encode l.unitPrice), ("parent_line_id", Wire.encode l.parentId),
    ("menu_slot_id", Wire.encode l.slotId), ("slot_name", Wire.encode l.slotName),
    ("created_at", Wire.encode l.createdAt)]
  decode? j := do
    let m ← Members.ofJson?
      ["id", "order_id", "line_type", "product_id", "title", "quantity", "unit_price_cents",
       "parent_line_id", "menu_slot_id", "slot_name", "created_at"] 11 j
    some {
      id := ← m.required? "id"
      orderId := ← m.required? "order_id"
      type := ← m.required? "line_type"
      productId := ← m.required? "product_id"
      title := ← m.required? "title"
      quantity := ← m.required? "quantity"
      unitPrice := ← m.required? "unit_price_cents"
      parentId := ← m.optional? "parent_line_id"
      slotId := ← m.optional? "menu_slot_id"
      slotName := ← m.optional? "slot_name"
      createdAt := ← m.required? "created_at" }

/-- An order together with its lines: what the customer is told, and what a retry of
the same attempt is told again. -/
structure OrderReceipt where
  order : Order
  lines : List Line
  deriving DecidableEq, Repr

instance : Wire OrderReceipt where
  encode r := .obj [("order", Wire.encode r.order), ("lines", Wire.encode r.lines)]
  decode? j := do
    let m ← Members.ofJson? ["order", "lines"] 2 j
    some { order := ← m.required? "order", lines := ← m.required? "lines" }

end OrderLedger
