import OrderLedger.Money

/-!
What is for sale. A simple product is sold on its own; a menu is sold at one
price and has slots, each of which the customer fills with one of its options.
-/

namespace OrderLedger

inductive ProductKind where
  | simple
  | menu
  deriving DecidableEq, Repr

instance : Named ProductKind where
  all := [.simple, .menu]
  name
    | .simple => "simple"
    | .menu => "menu"

structure Product where
  id : String
  name : String
  kind : ProductKind
  /-- The price of one piece; for a menu, the price of the whole. -/
  price : Money
  /-- Inactive products cannot be ordered. -/
  isActive : Bool
  createdAt : Time.Instant
  updatedAt : Time.Instant
  deriving DecidableEq, Repr

instance : Wire Product where
  encode p := .obj [
    ("id", Wire.encode p.id), ("name", Wire.encode p.name), ("kind", Wire.encode p.kind),
    ("price_cents", Wire.encode p.price), ("is_active", Wire.encode p.isActive),
    ("created_at", Wire.encode p.createdAt), ("updated_at", Wire.encode p.updatedAt)]
  decode? j := do
    let m ← Members.ofJson?
      ["id", "name", "kind", "price_cents", "is_active", "created_at", "updated_at"] 7 j
    some {
      id := ← m.required? "id"
      name := ← m.required? "name"
      kind := ← m.required? "kind"
      price := ← m.required? "price_cents"
      isActive := ← m.required? "is_active"
      createdAt := ← m.required? "created_at"
      updatedAt := ← m.required? "updated_at" }

/-- A choice that a menu offers. -/
structure MenuSlot where
  id : String
  menuId : String
  name : String
  /-- The place of the slot within its menu. -/
  sequence : Int
  /-- The products that may fill the slot. -/
  options : List String
  deriving DecidableEq, Repr

namespace MenuSlot

def admits (slot : MenuSlot) (productId : String) : Bool := slot.options.contains productId

/-- The slots in ascending sequence; slots with the same sequence keep their order. -/
def inSequence (slots : List MenuSlot) : List MenuSlot :=
  slots.mergeSort fun a b => decide (a.sequence ≤ b.sequence)

instance : Wire MenuSlot where
  encode s := .obj [
    ("id", Wire.encode s.id), ("menu_product_id", Wire.encode s.menuId),
    ("name", Wire.encode s.name), ("sequence", Wire.encode s.sequence),
    ("option_product_ids", Wire.encode s.options)]
  decode? j := do
    let m ← Members.ofJson? ["id", "menu_product_id", "name", "sequence", "option_product_ids"] 5 j
    some {
      id := ← m.required? "id"
      menuId := ← m.required? "menu_product_id"
      name := ← m.required? "name"
      sequence := ← m.required? "sequence"
      options := ← m.required? "option_product_ids" }

end MenuSlot

/-- The products and menu slots against which a cart is priced. -/
structure Catalog where
  products : List Product
  /-- The slots of each menu, by the menu's id. -/
  menus : List (String × List MenuSlot)
  deriving Repr

namespace Catalog

def empty : Catalog := ⟨[], []⟩

/-- Adds a product in place of any other with its id. -/
def addProduct (c : Catalog) (p : Product) : Catalog :=
  { c with products := p :: c.products.filter fun q => q.id != p.id }

def setSlots (c : Catalog) (menuId : String) (slots : List MenuSlot) : Catalog :=
  { c with
    menus := (menuId, MenuSlot.inSequence slots) :: c.menus.filter fun entry => entry.1 != menuId }

def product? (c : Catalog) (id : String) : Option Product := c.products.find? fun p => p.id == id

def slots (c : Catalog) (menuId : String) : List MenuSlot := (c.menus.lookup menuId).getD []

def contains (c : Catalog) (id : String) : Bool := (c.product? id).isSome

def size (c : Catalog) : Nat := c.products.length

def isEmpty (c : Catalog) : Bool := c.products.isEmpty

end Catalog

end OrderLedger
