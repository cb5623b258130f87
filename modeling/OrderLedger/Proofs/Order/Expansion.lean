import Mathlib.Data.List.Forall2
import Mathlib.Data.List.Nodup
import OrderLedger.Proofs.Order.Rows
import OrderLedger.Proofs.Order.Selections

/-!
The lines of a draft, told by the cart. Each cart line becomes one line, or a bundle with one
component for each slot of its menu, and the lines of the draft are these, one cart line after
the other.
-/

namespace OrderLedger.Draft

section Lines

variable (catalog : Catalog) (orderId : String) (now : Time.Instant) (c : CartLine)

/-- The line for a slot of a menu, below the bundle. -/
def IsComponent (bundleId : String) (slot : MenuSlot) (l : Line) : Prop :=
  ∃ p, Fills catalog c.selections slot p ∧
    l = { id := l.id, orderId, type := .component, productId := p.id, title := p.name,
          quantity := c.quantity, unitPrice := ⟨0⟩, parentId := some bundleId,
          slotId := some slot.id, slotName := some slot.name, createdAt := now }

/-- The lines that a cart line stands for in an order. -/
inductive Expanded : List Line → Prop
  | simple {p : Product} {l : Line}
      (found : catalog.product? c.productId = some p) (active : p.isActive = true)
      (kind : p.kind = .simple)
      (line : l = { id := l.id, orderId, type := .simple, productId := p.id, title := p.name,
                    quantity := c.quantity, unitPrice := p.price, parentId := none,
                    slotId := none, slotName := none, createdAt := now }) :
      Expanded [l]
  | menu {p : Product} {bundle : Line} {slots : List MenuSlot} {parts : List Line}
      (found : catalog.product? c.productId = some p) (active : p.isActive = true)
      (kind : p.kind = .menu)
      (line : bundle = { id := bundle.id, orderId, type := .bundle, productId := p.id,
                         title := p.name, quantity := c.quantity, unitPrice := p.price,
                         parentId := none, slotId := none, slotName := none, createdAt := now })
      (order : MenuSlot.InOrder (catalog.slots p.id) slots)
      (filled : List.Forall₂ (IsComponent catalog orderId now c bundle.id) slots parts) :
      Expanded (bundle :: parts)

end Lines

/-- The same product as often, with the same options selected, listed in any order. -/
structure SameChoices (c d : CartLine) : Prop where
  product : d.productId = c.productId
  quantity : d.quantity = c.quantity
  selections : c.selections.Perm d.selections

variable {catalog : Catalog} {stamp : Stamp} {position : Nat} {c : CartLine}
  {cart more : List CartLine} {lines : List Line} {now : Time.Instant} {ids : Nat → String}
  {r : OrderRequest} {d : Draft}

theorem forall₂_components {bundleId : String} {slots : List MenuSlot}
    {filled : List (MenuSlot × Product)}
    (h : List.Forall₂ (fun slot pair => pair.1 = slot ∧ Fills catalog c.selections slot pair.2)
      slots filled) :
    List.Forall₂ (IsComponent catalog stamp.orderId stamp.now c bundleId) slots
      (components stamp bundleId c.quantity position filled) := by
  induction h generalizing position with
  | nil => exact .nil
  | cons hfills _ ih =>
      obtain ⟨rfl, hfills⟩ := hfills
      exact .cons ⟨_, hfills, rfl⟩ ih

theorem expanded_of_expandLine (h : expandLine catalog stamp position c = .ok lines) :
    Expanded catalog stamp.orderId stamp.now c lines := by
  obtain ⟨p, hp, ⟨hkind, -, rfl⟩ | ⟨hkind, filled, hfilled, rfl⟩⟩ := expandLine_eq_ok.mp h
  · obtain ⟨hfound, hactive⟩ := sellable_eq_ok.mp hp
    exact .simple hfound hactive hkind rfl
  · obtain ⟨hfound, hactive⟩ := sellable_eq_ok.mp hp
    exact .menu hfound hactive hkind rfl (MenuSlot.inOrder_inSequence _)
      (forall₂_components (resolve_eq_ok.mp hfilled).2)

/-- The lines of a cart are those of its cart lines, one after the other. -/
theorem exists_blocks (h : expand catalog stamp position cart = .ok lines) :
    ∃ blocks, List.Forall₂ (Expanded catalog stamp.orderId stamp.now) cart blocks ∧
      lines = blocks.flatten := by
  induction cart generalizing position lines with
  | nil =>
      cases h
      exact ⟨[], .nil, rfl⟩
  | cons c rest ih =>
      obtain ⟨first, more, hfirst, hmore, rfl⟩ := expand_cons_eq_ok.mp h
      obtain ⟨blocks, hblocks, rfl⟩ := ih hmore
      exact ⟨first :: blocks, .cons (expanded_of_expandLine hfirst) hblocks, rfl⟩

theorem ids_build (h : build catalog now ids r = .ok d) :
    d.order.id :: d.lines.map (·.id) = (List.range (d.lines.length + 1)).map ids := by
  rw [(rows_build h).ids, (build_eq_ok h).id, List.range_succ_eq_map, List.map_cons, List.map_map,
    List.range_eq_range']
  rfl

/-! ## The order of selections -/

theorem expandLine_sameChoices {e : CartLine}
    (h : expandLine catalog stamp position c = .ok lines) (hsame : SameChoices c e) :
    expandLine catalog stamp position e = .ok lines := by
  obtain ⟨p, hp, hlines⟩ := expandLine_eq_ok.mp h
  refine expandLine_eq_ok.mpr ⟨p, hsame.product ▸ hp, ?_⟩
  rw [hsame.quantity]
  obtain ⟨hkind, hplain, hline⟩ | ⟨hkind, filled, hfilled, hline⟩ := hlines
  · have hperm := hsame.selections
    rw [hplain, List.nil_perm] at hperm
    exact Or.inl ⟨hkind, hperm, hline⟩
  · exact Or.inr ⟨hkind, filled, resolve_perm hfilled hsame.selections, hline⟩

theorem expand_sameChoices (h : expand catalog stamp position cart = .ok lines)
    (hsame : List.Forall₂ SameChoices cart more) :
    expand catalog stamp position more = .ok lines := by
  induction hsame generalizing position lines with
  | nil => exact h
  | cons hline _ ih =>
      obtain ⟨first, rest, hfirst, hrest, rfl⟩ := expand_cons_eq_ok.mp h
      exact expand_cons_eq_ok.mpr
        ⟨first, rest, expandLine_sameChoices hfirst hline, ih hrest, rfl⟩

theorem quantities_sameChoices (hsame : List.Forall₂ SameChoices cart more) :
    more.map (·.quantity) = cart.map (·.quantity) := by
  induction hsame with
  | nil => rfl
  | cons hline _ ih => rw [List.map_cons, List.map_cons, ih, hline.quantity]

theorem build_sameChoices (h : build catalog now ids r = .ok d)
    (hsame : List.Forall₂ SameChoices r.lines cart) :
    build catalog now ids { r with lines := cart } = .ok d := by
  obtain ⟨hvalid, lines, total, hlines, htotal, hd⟩ := build_eq_ok_iff.mp h
  refine build_eq_ok_iff.mpr
    ⟨⟨hvalid.contact, ?_, hvalid.attempt, ?_⟩, lines, total, expand_sameChoices hlines hsame,
      htotal, hd⟩
  · rw [← hsame.length_eq]
    exact hvalid.size
  · intro e he
    have hmem : e.quantity ∈ cart.map (·.quantity) := List.mem_map_of_mem he
    rw [quantities_sameChoices hsame] at hmem
    obtain ⟨c, hc, heq⟩ := List.mem_map.mp hmem
    rw [← heq]
    exact hvalid.quantities c hc

/-- A cart that is accepted becomes, cart line by cart line, exactly the lines that it stands
for: they belong to the pending order with the trimmed contact, have ids of their own, and do
not depend on the order in which selections are listed. Slots of one sequence come in the order
in which the catalog was given them. -/
theorem carts_are_expanded_exactly (h : build catalog now ids r = .ok d) :
    (∃ blocks, List.Forall₂ (Expanded catalog d.order.id now) r.lines blocks ∧
      d.lines = blocks.flatten) ∧
    (Function.Injective ids → (d.order.id :: d.lines.map (·.id)).Nodup) ∧
    (∀ l ∈ d.lines, l.orderId = d.order.id) ∧
    (d.order.status = .pending ∧ d.order.customerId = Text.trimmed? r.customerId ∧
      d.order.contactEmail = Text.trimmed? r.contactEmail) ∧
    (∀ cart, List.Forall₂ SameChoices r.lines cart →
      build catalog now ids { r with lines := cart } = .ok d) ∧
    ∀ menuId slots, MenuSlot.InOrder slots ((catalog.setSlots menuId slots).slots menuId) := by
  refine ⟨?_, ?_, (build_eq_ok h).owner, ?_, fun cart => build_sameChoices h,
    catalog.slots_setSlots⟩
  · obtain ⟨-, lines, total, hlines, -, rfl⟩ := build_eq_ok_iff.mp h
    exact exists_blocks hlines
  · intro hids
    rw [ids_build h]
    exact List.nodup_range.map hids
  · obtain ⟨-, lines, total, -, -, rfl⟩ := build_eq_ok_iff.mp h
    exact ⟨rfl, rfl, rfl⟩

/-- A menu that is given its slots out of order, two of them with one sequence. -/
def lunchCatalog : Catalog :=
  let noon : Time.Instant := ⟨20000, 43200, 0⟩
  Catalog.setSlots
    { products :=
        [⟨"soup", "Soup", .simple, ⟨850⟩, true, noon, noon⟩,
         ⟨"bread", "Bread", .simple, ⟨250⟩, true, noon, noon⟩,
         ⟨"lunch", "Lunch", .menu, ⟨1200⟩, true, noon, noon⟩]
      menus := [] }
    "lunch"
    [⟨"side", "lunch", "Side", 2, ["bread", "soup"]⟩,
     ⟨"extra", "lunch", "Extra", 2, ["bread"]⟩,
     ⟨"main", "lunch", "Main", 1, ["soup"]⟩]

/-- Two lunches with these selections, and a soup. -/
def lunchOrder (selections : List Selection) : OrderRequest :=
  ⟨some " c-7 ", none, .pos, none, [⟨"lunch", 2, selections⟩, ⟨"soup", 1, []⟩]⟩

theorem lines_of_lunchOrder :
    let ids (n : Nat) := String.ofList (List.replicate n 'x')
    let noon : Time.Instant := ⟨20000, 43200, 0⟩
    ∃ d, build lunchCatalog noon ids
        (lunchOrder [⟨"extra", "bread"⟩, ⟨"main", "soup"⟩, ⟨"side", "soup"⟩]) = .ok d ∧
      (d.lines.map fun l => (l.type, l.productId, l.slotId)) =
        [(.bundle, "lunch", none), (.component, "soup", some "main"),
         (.component, "soup", some "side"), (.component, "bread", some "extra"),
         (.simple, "soup", none)] ∧
      (d.order.id :: d.lines.map (·.id)).Nodup ∧
      build lunchCatalog noon ids
        (lunchOrder [⟨"main", "soup"⟩, ⟨"side", "soup"⟩, ⟨"extra", "bread"⟩]) = .ok d := by
  intro ids noon
  let soup : Product := ⟨"soup", "Soup", .simple, ⟨850⟩, true, noon, noon⟩
  let bread : Product := ⟨"bread", "Bread", .simple, ⟨250⟩, true, noon, noon⟩
  let lunch : Product := ⟨"lunch", "Lunch", .menu, ⟨1200⟩, true, noon, noon⟩
  let main : MenuSlot := ⟨"main", "lunch", "Main", 1, ["soup"]⟩
  let side : MenuSlot := ⟨"side", "lunch", "Side", 2, ["bread", "soup"]⟩
  let extra : MenuSlot := ⟨"extra", "lunch", "Extra", 2, ["bread"]⟩
  let selections : List Selection := [⟨"extra", "bread"⟩, ⟨"main", "soup"⟩, ⟨"side", "soup"⟩]
  let stamp : Stamp := ⟨ids 0, noon, fun n => ids (n + 1)⟩
  have hids : Function.Injective ids := by
    intro n m h
    simpa [ids] using congrArg String.length h
  -- Sorting does not compute, so the slots are put in sequence before the rest is evaluated.
  have hslots : lunchCatalog.slots "lunch" = [main, side, extra] := by
    simp [lunchCatalog, Catalog.slots, Catalog.setSlots, MenuSlot.inSequence, List.mergeSort, main,
      side, extra]
  have hsorted : MenuSlot.inSequence [main, side, extra] = [main, side, extra] :=
    List.mergeSort_of_pairwise (by decide)
  have hfilled : resolve lunchCatalog lunch selections =
      .ok [(main, soup), (side, soup), (extra, bread)] := by
    simp only [resolve, lunch, hslots, hsorted]
    decide +kernel
  have hlunch : expandLine lunchCatalog stamp 0 ⟨"lunch", 2, selections⟩ = .ok _ :=
    expandLine_eq_ok.mpr ⟨lunch, by decide +kernel, .inr ⟨rfl, _, hfilled, rfl⟩⟩
  have hsoup : expandLine lunchCatalog stamp 4 ⟨"soup", 1, []⟩ = .ok _ :=
    expandLine_eq_ok.mpr ⟨soup, by decide +kernel, .inl ⟨rfl, rfl, rfl⟩⟩
  have hcart : expand lunchCatalog stamp 0 (lunchOrder selections).lines = .ok _ :=
    expand_cons_eq_ok.mpr ⟨_, _, hlunch, expand_cons_eq_ok.mpr ⟨_, _, hsoup, rfl, rfl⟩, rfl⟩
  have hvalid : (lunchOrder selections).IsValid := checkRequest_eq_ok.mp (by decide +kernel)
  have hbuild := build_eq_ok_iff.mpr ⟨hvalid, _, _, hcart, rfl, rfl⟩
  obtain ⟨-, hdistinct, -, -, hsame, -⟩ := carts_are_expanded_exactly hbuild
  refine ⟨_, hbuild, rfl, hdistinct hids, hsame _ ?_⟩
  exact .cons ⟨rfl, rfl, by decide⟩ (.cons ⟨rfl, rfl, .rfl⟩ .nil)

end OrderLedger.Draft
