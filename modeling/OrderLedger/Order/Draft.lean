import OrderLedger.Catalog
import OrderLedger.Order.Lines
import OrderLedger.Validation

/-!
From a cart to an order. A request is checked as a whole and then every cart line
is expanded: a simple product into one line, a menu into a bundle line followed by
one component line for each of its slots. One bad line refuses the whole cart.
-/

namespace OrderLedger

/-- The option chosen for one slot of a menu. -/
structure Selection where
  slotId : String
  optionId : String
  deriving DecidableEq, Repr

instance : Wire Selection where
  encode s := .obj [
    ("slot_id", Wire.encode s.slotId), ("option_product_id", Wire.encode s.optionId)]
  decode? j := do
    let m ← Members.ofJson? ["slot_id", "option_product_id"] 2 j
    some { slotId := ← m.required? "slot_id", optionId := ← m.required? "option_product_id" }

structure CartLine where
  productId : String
  quantity : Int
  selections : List Selection
  deriving DecidableEq, Repr

instance : Wire CartLine where
  encode l := .obj [
    ("product_id", Wire.encode l.productId), ("quantity", Wire.encode l.quantity),
    ("selections", Wire.encode l.selections)]
  decode? j := do
    let m ← Members.ofJson? ["product_id", "quantity", "selections"] 2 j
    some {
      productId := ← m.required? "product_id"
      quantity := ← m.required? "quantity"
      selections := ← m.defaulted? "selections" [] }

/-- A checkout. -/
structure OrderRequest where
  customerId : Option String
  contactEmail : Option String
  origin : Origin
  /-- The checkout attempt, under which a retry gets the first answer again. -/
  attemptId : Option String
  lines : List CartLine
  deriving DecidableEq, Repr

instance : Wire OrderRequest where
  encode r := .obj [
    ("customer_id", Wire.encode r.customerId), ("contact_email", Wire.encode r.contactEmail),
    ("origin", Wire.encode r.origin), ("payment_attempt_id", Wire.encode r.attemptId),
    ("lines", Wire.encode r.lines)]
  decode? j := do
    let m ← Members.ofJson?
      ["customer_id", "contact_email", "origin", "payment_attempt_id", "lines"] 5 j
    some {
      customerId := ← m.optional? "customer_id"
      contactEmail := ← m.optional? "contact_email"
      origin := ← m.required? "origin"
      attemptId := ← m.optional? "payment_attempt_id"
      lines := ← m.required? "lines" }

/-- The products that a cart names, options included, each once and in order. -/
def OrderRequest.productIds (r : OrderRequest) : List String :=
  (r.lines.flatMap fun l => l.productId :: l.selections.map (·.optionId)).eraseDups

/-- Why the rules of the shop refuse something. -/
inductive RuleError where
  | unknownProduct (id : String)
  | badSelection (productId reason : String)
  | badMove (source target : Status)
  | invalid (cause : ValidationError)
  deriving DecidableEq, Repr

def RuleError.message : RuleError → String
  | .unknownProduct id => "Product not found: " ++ id
  | .badSelection productId reason => "Invalid selection for product " ++ productId ++ ": " ++ reason
  | .badMove source target => "Order cannot move from " ++ source.text ++ " to " ++ target.text
  | .invalid cause => "Validation error: " ++ cause.message

/-- The status after a move, if the order may make it. -/
def Status.moveTo (source target : Status) : Except RuleError Status :=
  if source.canMoveTo target then .ok target else .error (.badMove source target)

/-- An order that is priced but not stored. -/
structure Draft where
  order : Order
  lines : List Line
  deriving DecidableEq, Repr

instance : Wire Draft where
  encode d := .obj [("order", Wire.encode d.order), ("lines", Wire.encode d.lines)]
  decode? j := do
    let m ← Members.ofJson? ["order", "lines"] 2 j
    some { order := ← m.required? "order", lines := ← m.required? "lines" }

namespace Draft

/-- The product, if it exists and is active. -/
def sellable (catalog : Catalog) (id : String) : Except RuleError Product :=
  match catalog.product? id with
  | none => .error (.unknownProduct id)
  | some p => if p.isActive then .ok p else .error (.badSelection id "product is inactive")

/-- Checks that every selection names a slot of the menu, and none twice. `seen` are
the slots selected so far. -/
def checkSelections (menuId : String) (slots : List MenuSlot) (seen : List String) :
    List Selection → Except RuleError Unit
  | [] => .ok ()
  | s :: rest =>
      if !slots.any (fun slot => slot.id == s.slotId) then
        .error (.badSelection menuId ("unknown slot '" ++ s.slotId ++ "'"))
      else if seen.contains s.slotId then
        .error (.badSelection menuId ("slot '" ++ s.slotId ++ "' selected more than once"))
      else checkSelections menuId slots (s.slotId :: seen) rest

/-- The option selected for a slot. -/
def chosen? (selections : List Selection) (slotId : String) : Option String :=
  (selections.find? fun s => s.slotId == slotId).map (·.optionId)

def fill (catalog : Catalog) (menuId : String) (selections : List Selection) (slot : MenuSlot) :
    Except RuleError (MenuSlot × Product) :=
  match chosen? selections slot.id with
  | none => .error (.badSelection menuId ("slot '" ++ slot.name ++ "' has no selection"))
  | some optionId =>
      if slot.admits optionId then (sellable catalog optionId).map fun p => (slot, p)
      else
        .error (.badSelection menuId
          ("'" ++ optionId ++ "' is not an option for slot '" ++ slot.name ++ "'"))

/-- The slots of a menu in sequence, each with the product that fills it. -/
def resolve (catalog : Catalog) (menu : Product) (selections : List Selection) :
    Except RuleError (List (MenuSlot × Product)) := do
  let slots := catalog.slots menu.id
  checkSelections menu.id slots [] selections
  (MenuSlot.inSequence slots).mapM (fill catalog menu.id selections)

/-- What a line takes from its order rather than from the cart. -/
structure Stamp where
  orderId : String
  now : Time.Instant
  /-- The ids of the order's lines, by their position. -/
  lineId : Nat → String

/-- The line at a position for so many pieces of a product. -/
def Stamp.line (stamp : Stamp) (position : Nat) (type : LineType) (p : Product) (quantity : Int) :
    Line :=
  { id := stamp.lineId position
    orderId := stamp.orderId
    type
    productId := p.id
    title := p.name
    quantity
    unitPrice := p.price
    parentId := none
    slotId := none
    slotName := none
    createdAt := stamp.now }

/-- The component lines of a bundle, from a position on. -/
def components (stamp : Stamp) (bundleId : String) (quantity : Int) :
    Nat → List (MenuSlot × Product) → List Line
  | _, [] => []
  | position, (slot, p) :: rest =>
      { stamp.line position .component p quantity with
        unitPrice := Money.zero
        parentId := some bundleId
        slotId := some slot.id
        slotName := some slot.name } ::
        components stamp bundleId quantity (position + 1) rest

/-- The order lines of one cart line, from a position on. -/
def expandLine (catalog : Catalog) (stamp : Stamp) (position : Nat) (l : CartLine) :
    Except RuleError (List Line) := do
  let p ← sellable catalog l.productId
  match p.kind with
  | .simple =>
      if l.selections.isEmpty then .ok [stamp.line position .simple p l.quantity]
      else .error (.badSelection p.id "selections given for a product that is not a menu")
  | .menu =>
      let filled ← resolve catalog p l.selections
      let bundle := stamp.line position .bundle p l.quantity
      .ok (bundle :: components stamp bundle.id l.quantity (position + 1) filled)

/-- The order lines of a cart, from a position on. -/
def expand (catalog : Catalog) (stamp : Stamp) (position : Nat) :
    List CartLine → Except RuleError (List Line)
  | [] => .ok []
  | l :: rest => do
      let lines ← expandLine catalog stamp position l
      let more ← expand catalog stamp (position + lines.length) rest
      .ok (lines ++ more)

def totalOverflow : RuleError := .invalid (.outOfRange "order total" 0 Word.greatest)

/-- The total of the priced lines, refused where it leaves the 64-bit range. -/
def checkedTotalFrom (start : Money) : List Line → Except RuleError Money
  | [] => .ok start
  | l :: rest =>
      if l.type.isPriced then
        match (l.unitPrice.times? l.quantity).bind start.add? with
        | some total => checkedTotalFrom total rest
        | none => .error totalOverflow
      else checkedTotalFrom start rest

def checkedTotal (lines : List Line) : Except RuleError Money := checkedTotalFrom Money.zero lines

def valid (check : Except ValidationError Unit) : Except RuleError Unit :=
  check.mapError .invalid

/-- The checks that need no catalog. -/
def checkRequest (r : OrderRequest) : Except RuleError Unit := do
  valid (Validation.contact r.customerId r.contactEmail)
  valid (Validation.cartSize r.lines.length)
  valid (r.attemptId.forM Validation.key)
  valid (r.lines.forM fun l => Validation.quantity l.quantity)

/-- Prices a request against a catalog. The first of `ids` is for the order, the
others are for its lines. -/
def build (catalog : Catalog) (now : Time.Instant) (ids : Nat → String) (r : OrderRequest) :
    Except RuleError Draft := do
  checkRequest r
  let lines ← expand catalog ⟨ids 0, now, fun n => ids (n + 1)⟩ 0 r.lines
  let total ← checkedTotal lines
  .ok {
    order := {
      id := ids 0
      customerId := Text.trimmed? r.customerId
      contactEmail := Text.trimmed? r.contactEmail
      total
      status := Status.initial
      origin := r.origin
      attemptId := r.attemptId
      createdAt := now
      updatedAt := now }
    lines }

def receipt (d : Draft) : OrderReceipt := ⟨d.order, d.lines⟩

end Draft

end OrderLedger
