import OrderLedger.Proofs.Calculations
import OrderLedger.Proofs.Order.Drafts
import OrderLedger.Store.Catalog

/-!
What pricing reads of a catalog. It looks up the products that the cart names, and the slots of
the menus among them, and nothing else; so the catalog of these products serves as well as the
catalog of all that is stored. The ids that are drawn for an order stay apart from this: other
ids give the same draft with other ids.
-/

namespace OrderLedger

/-! ## Catalogs -/

namespace Catalog

theorem id_of_product? {catalog : Catalog} {id : String} {p : Product}
    (h : catalog.product? id = some p) : p.id = id := by
  simpa using List.find?_some h

theorem slots_setSlots_eq (catalog : Catalog) (menuId id : String) (slots : List MenuSlot) :
    (catalog.setSlots menuId slots).slots id =
      if menuId = id then MenuSlot.inSequence slots else catalog.slots id := by
  have hothers (menus : List (String × List MenuSlot)) (hne : menuId ≠ id) :
      (menus.filter fun entry => entry.1 != menuId).lookup id = menus.lookup id := by
    induction menus with
    | nil => rfl
    | cons entry rest ih =>
        by_cases hentry : entry.1 = menuId
        · have hkey : (id == entry.1) = false := by simp [hentry, hne.symm]
          rw [List.filter_cons_of_neg (by simp [hentry]), ih, List.lookup_cons, hkey]
        · rw [List.filter_cons_of_pos (by simp [hentry]), List.lookup_cons, List.lookup_cons, ih]
  rw [Catalog.slots, setSlots, List.lookup_cons]
  by_cases hid : menuId = id
  · simp [hid]
  · have hkey : (id == menuId) = false := by simp [Ne.symm hid]
    rw [if_neg hid, hkey, hothers _ hid]
    rfl

end Catalog

namespace Store

variable {s : Store} {first second : Catalog} {ps : List Product} {ids : List String} {id : String}

/-- Puts a stored product into a catalog, with its slots if it is a menu. -/
def shelve (s : Store) (catalog : Catalog) (p : Product) : Catalog :=
  (if p.kind = .menu then catalog.setSlots p.id (s.menuSlots p.id) else catalog).addProduct p

theorem slots_shelve (s : Store) (catalog : Catalog) (p : Product) (id : String) :
    (s.shelve catalog p).slots id =
      if p.id = id ∧ p.kind = .menu then MenuSlot.inSequence (s.menuSlots id)
      else catalog.slots id := by
  change Catalog.slots (if p.kind = .menu then _ else _) id = _
  by_cases hkind : p.kind = .menu
  · rw [if_pos hkind, Catalog.slots_setSlots_eq]
    by_cases hid : p.id = id
    · simp [hid, hkind]
    · simp [hid]
  · simp [hkind]

end Store

/-! ## The products that a cart names -/

namespace Draft

variable {first second : Catalog} {stamp : Stamp} {position : Nat} {c : CartLine}
  {cart : List CartLine} {r : OrderRequest}

end Draft

/-! ## Lines under other stamps -/

namespace Draft

/-- `f` turns the lines under one stamp into those under another. -/
structure Stamp.Becomes (stamp : Stamp) (f : Line → Line) (other : Stamp) : Prop where
  line : ∀ position type p quantity,
    other.line position type p quantity = f (stamp.line position type p quantity)
  component : ∀ bundle position p quantity (slot : MenuSlot),
    { other.line position .component p quantity with
      unitPrice := Money.zero
      parentId := some (other.lineId bundle)
      slotId := some slot.id
      slotName := some slot.name } =
    f { stamp.line position .component p quantity with
      unitPrice := Money.zero
      parentId := some (stamp.lineId bundle)
      slotId := some slot.id
      slotName := some slot.name }

variable {catalog : Catalog} {stamp other : Stamp} {f : Line → Line} {position : Nat}
  {c : CartLine} {cart : List CartLine}

theorem components_becomes (h : stamp.Becomes f other) (bundle position : Nat) (quantity : Int)
    (filled : List (MenuSlot × Product)) :
    components other (other.lineId bundle) quantity position filled =
      (components stamp (stamp.lineId bundle) quantity position filled).map f := by
  induction filled generalizing position with
  | nil => rfl
  | cons head rest ih =>
      obtain ⟨slot, p⟩ := head
      rw [components, components, List.map_cons, ih, h.component]

theorem expandLine_becomes (h : stamp.Becomes f other) :
    expandLine catalog other position c =
      (expandLine catalog stamp position c).map (List.map f) := by
  rw [expandLine, expandLine]
  cases sellable catalog c.productId with
  | error e => rfl
  | ok p =>
      simp only [bind, Except.bind]
      cases p.kind with
      | simple =>
          rw [h.line]
          change (if _ then _ else _) = Except.map _ (if _ then _ else _)
          split <;> rfl
      | menu =>
          cases resolve catalog p c.selections with
          | error e => rfl
          | ok filled =>
              have hparts := components_becomes h position (position + 1) c.quantity filled
              have hlead := h.line position .bundle p c.quantity
              exact congrArg Except.ok (congrArg₂ List.cons hlead hparts)

theorem expand_becomes (h : stamp.Becomes f other) :
    expand catalog other position cart =
      (expand catalog stamp position cart).map (List.map f) := by
  induction cart generalizing position with
  | nil => rfl
  | cons c rest ih =>
      rw [expand, expand, expandLine_becomes h]
      cases expandLine catalog stamp position c with
      | error e => rfl
      | ok lines =>
          simp only [Except.map, bind, Except.bind, List.length_map, ih]
          cases expand catalog stamp (position + lines.length) rest with
          | error e => rfl
          | ok more => simp

/-- The total reads the types, the prices and the quantities of lines. -/
theorem checkedTotalFrom_map (hf : ∀ l, (f l).type = l.type ∧ (f l).unitPrice = l.unitPrice ∧
    (f l).quantity = l.quantity) (start : Money) (lines : List Line) :
    checkedTotalFrom start (lines.map f) = checkedTotalFrom start lines := by
  induction lines generalizing start with
  | nil => rfl
  | cons l rest ih => simp only [List.map_cons, checkedTotalFrom, ih, hf]

/-- Drawn under another stamp, a request is refused for the same reason or becomes the same draft
but for what the stamp gives. -/
theorem build_becomes {now later : Time.Instant} {ids others : Nat → String} {r : OrderRequest}
    {g : Order → Order}
    (h : Stamp.Becomes ⟨ids 0, now, fun n => ids (n + 1)⟩ f
      ⟨others 0, later, fun n => others (n + 1)⟩)
    (hf : ∀ l, (f l).type = l.type ∧ (f l).unitPrice = l.unitPrice ∧ (f l).quantity = l.quantity)
    (hg : ∀ o : Order, o.id = ids 0 → o.createdAt = now → o.updatedAt = now →
      g o = { o with id := others 0, createdAt := later, updatedAt := later }) :
    build catalog later others r =
      (build catalog now ids r).map fun d => ⟨g d.order, d.lines.map f⟩ := by
  rw [build, build, expand_becomes h]
  cases checkRequest r with
  | error e => rfl
  | ok u =>
      cases expand catalog ⟨ids 0, now, fun n => ids (n + 1)⟩ 0 r.lines with
      | error e => rfl
      | ok lines =>
          have htotal := checkedTotalFrom_map hf Money.zero lines
          simp only [Except.map, bind, Except.bind, checkedTotal, htotal]
          cases checkedTotalFrom Money.zero lines with
          | error e => rfl
          | ok total =>
              refine congrArg (fun o => Except.ok (Draft.mk o _)) (Eq.symm ?_)
              exact hg _ rfl rfl rfl

end Draft

/-! ## The ids of an order -/

section Renaming

variable (rename : String → String)

/-- The same line with other ids in the place of its own, its order's and its parent's. -/
def Line.withIds (l : Line) : Line :=
  { l with id := rename l.id, orderId := rename l.orderId, parentId := l.parentId.map rename }

namespace Draft

/-- The same draft with other ids in the place of the order's and the lines'. -/
def withIds (d : Draft) : Draft :=
  { order := { d.order with id := rename d.order.id }, lines := d.lines.map (Line.withIds rename) }

/-- The same stamp with other ids in the place of those that it gives. -/
def Stamp.withIds (stamp : Stamp) : Stamp :=
  { stamp with orderId := rename stamp.orderId, lineId := rename ∘ stamp.lineId }

theorem becomes_withIds (stamp : Stamp) :
    stamp.Becomes (Line.withIds rename) (stamp.withIds rename) where
  line _ _ _ _ := rfl
  component _ _ _ _ _ := rfl

/-- With other ids, a request is refused for the same reason or becomes the same draft with
these ids. -/
theorem build_withIds {catalog : Catalog} (now : Time.Instant) (ids : Nat → String)
    (r : OrderRequest) :
    build catalog now (rename ∘ ids) r = (build catalog now ids r).map (withIds rename) := by
  refine build_becomes (g := fun o => { o with id := rename o.id })
    (becomes_withIds rename ⟨ids 0, now, fun n => ids (n + 1)⟩) (fun _ => ⟨rfl, rfl, rfl⟩) ?_
  intro o hid hcreated hupdated
  simp only [Function.comp_apply, hid, hcreated, hupdated]

end Draft

end Renaming

end OrderLedger
