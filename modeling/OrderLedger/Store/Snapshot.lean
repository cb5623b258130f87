import OrderLedger.Store.Basic

/-!
A store on the wire: all its tables with all their rows.
-/

namespace OrderLedger

instance : Wire SlotRow where
  encode r := .obj [
    ("id", Wire.encode r.id), ("menu_product_id", Wire.encode r.menuId),
    ("name", Wire.encode r.name), ("sequence", Wire.encode r.sequence)]
  decode? j := do
    let m ← Members.ofJson? ["id", "menu_product_id", "name", "sequence"] 4 j
    some {
      id := ← m.required? "id"
      menuId := ← m.required? "menu_product_id"
      name := ← m.required? "name"
      sequence := ← m.required? "sequence" }

instance : Wire SlotOption where
  encode o := .obj [
    ("slot_id", Wire.encode o.slotId), ("product_id", Wire.encode o.productId)]
  decode? j := do
    let m ← Members.ofJson? ["slot_id", "product_id"] 2 j
    some { slotId := ← m.required? "slot_id", productId := ← m.required? "product_id" }

instance : Wire Store where
  encode s := .obj [
    ("products", Wire.encode s.products), ("menu_slots", Wire.encode s.slots),
    ("menu_slot_options", Wire.encode s.options), ("orders", Wire.encode s.orders),
    ("order_lines", Wire.encode s.lines), ("order_payments", Wire.encode s.payments),
    ("order_line_redemptions", Wire.encode s.handOvers),
    ("inventory_ledger", Wire.encode s.entries),
    ("idempotency_records", Wire.encode s.remembered)]
  decode? j := do
    let m ← Members.ofJson?
      ["products", "menu_slots", "menu_slot_options", "orders", "order_lines", "order_payments",
       "order_line_redemptions", "inventory_ledger", "idempotency_records"] 9 j
    some {
      products := ← m.required? "products"
      slots := ← m.required? "menu_slots"
      options := ← m.required? "menu_slot_options"
      orders := ← m.required? "orders"
      lines := ← m.required? "order_lines"
      payments := ← m.required? "order_payments"
      handOvers := ← m.required? "order_line_redemptions"
      entries := ← m.required? "inventory_ledger"
      remembered := ← m.required? "idempotency_records" }

end OrderLedger
