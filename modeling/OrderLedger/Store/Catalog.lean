import OrderLedger.Store.Basic

/-!
Products and menu slots in the store.
-/

namespace OrderLedger.Store

def product? (s : Store) (id : String) : Option Product := s.products.find? fun p => p.id == id

/-- The products with the given ids; unknown ids are passed over. -/
def productsWith (s : Store) (ids : List String) : List Product :=
  s.products.filter fun p => ids.contains p.id

def productCount (s : Store) : Nat := s.products.length

def insertProduct (p : Product) : Statement := fun s =>
  if p.price.cents < 0 then .error (.checkFailed "price_cents >= 0")
  else if s.products.any (fun q => q.id == p.id) then .error (.duplicateRow "products.id")
  else .ok { s with products := s.products ++ [p] }

def insertSlotRow (slot : MenuSlot) : Statement := fun s =>
  if s.slots.any (fun row => row.id == slot.id) then .error (.duplicateRow "menu_slots.id")
  else if !s.products.any (fun p => p.id == slot.menuId) then .error .danglingReference
  else .ok { s with slots := s.slots ++ [⟨slot.id, slot.menuId, slot.name, slot.sequence⟩] }

def insertOption (option : SlotOption) : Statement := fun s =>
  if s.options.contains option then
    .error (.duplicateRow "menu_slot_options.slot_id, menu_slot_options.product_id")
  else if !(s.slots.any (fun row => row.id == option.slotId) &&
      s.products.any fun p => p.id == option.productId) then .error .danglingReference
  else .ok { s with options := s.options ++ [option] }

/-- A slot and then its options. -/
def insertSlotWork (slot : MenuSlot) : Work StorageError Unit := do
  Work.execute (insertSlotRow slot)
  slot.options.forM fun productId => Work.execute (insertOption ⟨slot.id, productId⟩)

def addProduct (p : Product) (s : Store) : Except (Fault StorageError) Unit × Store :=
  transactAll (Work.execute (insertProduct p)) s

/-- Adds a slot with its options, all or nothing. -/
def addSlot (slot : MenuSlot) (s : Store) : Except (Fault StorageError) Unit × Store :=
  transactAll (insertSlotWork slot) s

def updateActive (id : String) (isActive : Bool) (now : Time.Instant) : Statement := fun s =>
  if s.products.any (fun p => p.id == id) then
    .ok { s with
      products := s.products.map fun p =>
        if p.id == id then { p with isActive, updatedAt := now } else p }
  else .error (.notFound "Product" id)

def setActive (id : String) (isActive : Bool) (now : Time.Instant) (s : Store) :
    Except (Fault StorageError) Unit × Store :=
  transactAll (Work.execute (updateActive id isActive now)) s

/-- Before, by sequence and then by id. -/
def slotBefore (a b : SlotRow) : Bool :=
  a.sequence < b.sequence || (a.sequence == b.sequence && decide (a.id ≤ b.id))

/-- A row of the slots of a menu beside each of their options; a slot without options
stands beside none. -/
def slotRows (s : Store) (menuId : String) : List (SlotRow × Option String) :=
  ((s.slots.filter fun row => row.menuId == menuId).mergeSort slotBefore).flatMap fun row =>
    match ((s.options.filter fun o => o.slotId == row.id).map (·.productId)).mergeSort
        (fun a b => decide (a ≤ b)) with
    | [] => [(row, none)]
    | productIds => productIds.map fun productId => (row, some productId)

/-- Puts neighbouring rows of one slot together. -/
def mergeRows : List (SlotRow × Option String) → List MenuSlot
  | [] => []
  | (row, option) :: rest =>
      match mergeRows rest with
      | slot :: slots =>
          if slot.id == row.id then { slot with options := option.toList ++ slot.options } :: slots
          else ⟨row.id, row.menuId, row.name, row.sequence, option.toList⟩ :: slot :: slots
      | [] => [⟨row.id, row.menuId, row.name, row.sequence, option.toList⟩]

/-- The slots of a menu by sequence and then by id, each with its options in ascending
order. -/
def menuSlots (s : Store) (menuId : String) : List MenuSlot := mergeRows (s.slotRows menuId)

/-- The catalog of some products, with the slots of the menus among them. -/
def catalogOf (s : Store) (ids : List String) : Catalog :=
  (s.productsWith ids).foldl
    (fun catalog p =>
      let catalog := if p.kind = .menu then catalog.setSlots p.id (s.menuSlots p.id) else catalog
      catalog.addProduct p)
    Catalog.empty

end OrderLedger.Store
