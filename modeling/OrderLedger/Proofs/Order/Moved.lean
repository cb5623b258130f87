import OrderLedger.Proofs.Order.Footprint
import OrderLedger.Proofs.Order.Selections
import OrderLedger.Proofs.Run.Values
import OrderLedger.Proofs.Shop.Selling
import OrderLedger.Proofs.Store.Catalog

/-!
Which products an order takes out of stock: the simple products that its cart names, and the
options that fill the slots of its menus. An option is not asked for its kind. A menu that is
ordered by itself moves no stock of its own, but one that fills a slot of another menu does; so
the stock of simple products alone is moved where no slot offers a menu.
-/

namespace OrderLedger

/-- Every option of every slot is a simple product. -/
def Catalog.OffersSimple (catalog : Catalog) : Prop :=
  ∀ menuId, ∀ slot ∈ catalog.slots menuId, ∀ id ∈ slot.options, ∀ p,
    catalog.product? id = some p → p.kind = .simple

namespace Store

variable {s : Store} {ids : List String} {menuId : String} {slot : MenuSlot}

/-- Every stored option is a simple product. -/
def OffersSimple (s : Store) : Prop :=
  ∀ o ∈ s.options, ∀ p ∈ s.products, p.id = o.productId → p.kind = .simple

instance (s : Store) : Decidable s.OffersSimple :=
  inferInstanceAs (Decidable (∀ o ∈ s.options, ∀ p ∈ s.products, p.id = o.productId →
    p.kind = .simple))

/-- A catalog shows the slots of a menu that are stored. -/
theorem mem_slots_catalogOf (h : slot ∈ (s.catalogOf ids).slots menuId) :
    slot ∈ s.menuSlots menuId := by
  have hshelved (ps : List Product) (catalog : Catalog)
      (hcatalog : ∀ slot ∈ catalog.slots menuId, slot ∈ s.menuSlots menuId) :
      ∀ slot ∈ (ps.foldl s.shelve catalog).slots menuId, slot ∈ s.menuSlots menuId := by
    induction ps generalizing catalog with
    | nil => exact hcatalog
    | cons p rest ih =>
        refine ih _ fun slot hslot => ?_
        rw [slots_shelve] at hslot
        split at hslot
        · exact (MenuSlot.inOrder_inSequence _).perm.mem_iff.mp hslot
        · exact hcatalog slot hslot
  exact hshelved (s.productsWith ids) Catalog.empty (fun _ hslot => by cases hslot) slot h

theorem OffersSimple.catalogOf (h : s.OffersSimple) (ids : List String) :
    (s.catalogOf ids).OffersSimple := by
  intro menuId slot hslot id hid p hp
  have hoption := mem_options_menuSlots (mem_slots_catalogOf hslot) hid
  have hstored := mem_catalogOf (List.mem_of_find?_eq_some hp)
  exact h _ hoption p hstored (Catalog.id_of_product? hp)

end Store

theorem Line.moved_append (lines more : List Line) :
    moved (lines ++ more) = moved lines ++ moved more := by
  rw [moved, moving, List.filter_append, List.map_append]
  rfl

namespace Draft

open Calculation

variable {catalog : Catalog} {stamp : Stamp} {position : Nat} {c : CartLine}
  {cart : List CartLine} {lines : List Line} {p q : Product} {id : String}

/-- A product that fills a slot of the menu which a cart line names. -/
def IsChosen (catalog : Catalog) (c : CartLine) (p : Product) : Prop :=
  ∃ menu, catalog.product? c.productId = some menu ∧ menu.kind = .menu ∧
    ∃ slot ∈ catalog.slots menu.id, Fills catalog c.selections slot p

/-- A product of which a cart line takes from the stock: the simple product that it names, or one
that is chosen for its menu. -/
def Takes (catalog : Catalog) (c : CartLine) (p : Product) : Prop :=
  catalog.product? c.productId = some p ∧ p.kind = .simple ∨ IsChosen catalog c p

/-- A product is found under its own id. -/
theorem Takes.product? (h : Takes catalog c p) : catalog.product? p.id = some p := by
  have hown {id : String} (hfound : catalog.product? id = some p) :
      catalog.product? p.id = some p := by
    rw [Catalog.id_of_product? hfound]
    exact hfound
  rcases h with ⟨hfound, -⟩ | ⟨-, -, -, slot, -, optionId, -, -, hfound, -⟩
  · exact hown hfound
  · exact hown hfound

theorem Takes.kind (h : Takes catalog c p) (hoffers : catalog.OffersSimple) :
    p.kind = .simple := by
  rcases h with ⟨-, hkind⟩ | ⟨menu, -, -, slot, hslot, optionId, -, hoption, hfound, -⟩
  · exact hkind
  · exact hoffers menu.id slot hslot optionId hoption p hfound

theorem Takes.menu (h : Takes catalog c p) (hmenu : p.kind = .menu) : IsChosen catalog c p := by
  rcases h with ⟨-, hsimple⟩ | hchosen
  · rw [hmenu] at hsimple
    cases hsimple
  · exact hchosen

/-- Only one product fills a slot. -/
theorem Fills.eq {selections : List Selection} {slot : MenuSlot}
    (hdistinct : (selections.map (·.slotId)).Nodup) (hp : Fills catalog selections slot p)
    (hq : Fills catalog selections slot q) : q = p := by
  obtain ⟨first, hfirst, -, hp, -⟩ := hp
  obtain ⟨second, hsecond, -, hq, -⟩ := hq
  have hsame := List.inj_on_of_nodup_map hdistinct hfirst hsecond rfl
  rw [(Selection.mk.inj hsame).2, hq, Option.some.injEq] at hp
  exact hp

/-- What was found for the slots is what fills them. -/
theorem mem_filled {selections : List Selection} {slots : List MenuSlot}
    {filled : List (MenuSlot × Product)} (hdistinct : (selections.map (·.slotId)).Nodup)
    (h : List.Forall₂ (fun slot pair => pair.1 = slot ∧ Fills catalog selections slot pair.2)
      slots filled) :
    p ∈ filled.map (·.2) ↔ ∃ slot ∈ slots, Fills catalog selections slot p := by
  induction h with
  | nil => simp
  | @cons slot pair slots filled hfills _ ih =>
      have hhead : Fills catalog selections slot p ↔ p = pair.2 :=
        ⟨hfills.2.eq hdistinct, fun heq => heq ▸ hfills.2⟩
      rw [List.map_cons, List.mem_cons, List.exists_mem_cons_iff, ih, hhead]

theorem moved_components {bundleId : String} {quantity : Int}
    {filled : List (MenuSlot × Product)} :
    Line.moved (components stamp bundleId quantity position filled) =
      (filled.map (·.2)).map (·.id) := by
  induction filled generalizing position with
  | nil => rfl
  | cons head rest ih =>
      rw [List.map_cons, List.map_cons, ← @ih (position + 1)]
      rfl

/-- The lines of a cart line move what it takes. A bundle moves nothing, its components do. -/
theorem mem_moved_expandLine (h : expandLine catalog stamp position c = .ok lines) :
    id ∈ Line.moved lines ↔ ∃ p, Takes catalog c p ∧ p.id = id := by
  obtain ⟨p, hp, ⟨hkind, -, rfl⟩ | ⟨hkind, filled, hfilled, rfl⟩⟩ := expandLine_eq_ok.mp h
  · obtain ⟨hfound, -⟩ := sellable_eq_ok.mp hp
    change id ∈ [p.id] ↔ _
    rw [List.mem_singleton]
    constructor
    · rintro rfl
      exact ⟨p, Or.inl ⟨hfound, hkind⟩, rfl⟩
    · rintro ⟨q, ⟨hq, -⟩ | ⟨menu, hmenu, hmenuKind, -⟩, rfl⟩
      · rw [hfound, Option.some.injEq] at hq
        rw [hq]
      · rw [hfound, Option.some.injEq] at hmenu
        rw [← hmenu, hkind] at hmenuKind
        cases hmenuKind
  · obtain ⟨hfound, -⟩ := sellable_eq_ok.mp hp
    obtain ⟨hselects, hall⟩ := resolve_eq_ok.mp hfilled
    have hslots := (MenuSlot.inOrder_inSequence (catalog.slots p.id)).perm
    change id ∈ Line.moved (components _ _ _ _ _) ↔ _
    rw [moved_components, List.mem_map]
    refine exists_congr fun q => and_congr_left fun _ => ?_
    rw [mem_filled hselects.distinct hall]
    constructor
    · rintro ⟨slot, hslot, hfills⟩
      exact Or.inr ⟨p, hfound, hkind, slot, hslots.mem_iff.mp hslot, hfills⟩
    · rintro (⟨hq, hsimple⟩ | ⟨menu, hmenu, -, slot, hslot, hfills⟩)
      · rw [hfound, Option.some.injEq] at hq
        rw [← hq, hkind] at hsimple
        cases hsimple
      · rw [hfound, Option.some.injEq] at hmenu
        rw [← hmenu] at hslot
        exact ⟨slot, hslots.mem_iff.mpr hslot, hfills⟩

theorem mem_moved_expand (h : expand catalog stamp position cart = .ok lines) :
    id ∈ Line.moved lines ↔ ∃ c ∈ cart, ∃ p, Takes catalog c p ∧ p.id = id := by
  induction cart generalizing position lines with
  | nil =>
      cases h
      simp [Line.moved, Line.moving]
  | cons c rest ih =>
      obtain ⟨first, more, hfirst, hmore, rfl⟩ := expand_cons_eq_ok.mp h
      rw [Line.moved_append, List.mem_append, mem_moved_expandLine hfirst, ih hmore,
        List.exists_mem_cons_iff]

theorem mem_moved_build {now : Time.Instant} {ids : Nat → String} {r : OrderRequest} {d : Draft}
    (h : build catalog now ids r = .ok d) :
    id ∈ Line.moved d.lines ↔ ∃ c ∈ r.lines, ∃ p, Takes catalog c p ∧ p.id = id := by
  obtain ⟨-, lines, total, hlines, -, rfl⟩ := build_eq_ok_iff.mp h
  exact mem_moved_expand hlines

/-- The movements of a draft, and what it needs, are of what its lines move. -/
theorem exists_movements {now : Time.Instant} {ids : Nat → String} {r : OrderRequest} {d : Draft}
    (h : build catalog now ids r = .ok d) :
    ∃ movements, Movement.ofLines d.lines = .ok movements ∧
      (∀ id, (∃ m ∈ movements, m.productId = id) ↔ id ∈ Line.moved d.lines) ∧
      ∀ needed, Movement.requirements d.lines = .ok needed →
        ∀ id, id ∈ needed.keys ↔ id ∈ Line.moved d.lines := by
  have hquantities := (build_eq_ok h).quantities
  refine ⟨_, Shop.ofLines_of_quantities hquantities, fun id => ?_, fun needed hneeded id => ?_⟩
  · rw [← List.mem_map, List.map_map]
    rfl
  · rw [Movement.requirements_of_quantities hquantities, require_eq_ok] at hneeded
    rw [Tally.keys_of? hneeded, mem_distinctSorted, List.map_map]
    rfl

end Draft

namespace Shop

variable {shop after : Shop} {call : Call} {r : OrderRequest} {receipt : OrderReceipt}

/-- A call that places an order appends sales of what the cart takes. -/
theorem exists_sold (h : shop.place call r = (.ok ⟨receipt, false⟩, after)) :
    ∃ sold, after.store.entries = shop.store.entries ++ sold ∧
      ∀ e ∈ sold, e.reason = .sale ∧ ∃ c ∈ r.lines, ∃ p,
        Draft.Takes (shop.store.catalogOf r.productIds) c p ∧ p.id = e.productId := by
  rcases place_eq_ok h with ⟨d, hprice, -, hplaced⟩ | ⟨now, hlost, -⟩
  · obtain ⟨records, -, hafter⟩ := hplaced.after
    refine ⟨_, congrArg Store.entries hafter, fun e he => ?_⟩
    obtain ⟨⟨l, place⟩, hl, rfl⟩ := List.mem_map.mp he
    have hmoved : l.productId ∈ Line.moved d.lines :=
      List.mem_map_of_mem (List.fst_mem_of_mem_zipIdx hl)
    exact ⟨rfl, (Draft.mem_moved_build (Calculation.mapError_eq_ok.mp hprice)).mp hmoved⟩
  · cases hlost.replayed

end Shop

namespace Draft

/-- What an order takes out of stock are the simple products of its cart and the options that
are chosen for its menus; the draft moves these, asks for these and sells these. A menu's own
stock is moved where the menu is chosen as an option, and nowhere else. Where no slot offers a
menu, only simple products move stock. -/
theorem stock_is_taken_of_simple_products_and_options (catalog : Catalog) (now : Time.Instant)
    (ids : Nat → String) (r : OrderRequest) :
    (∀ d, build catalog now ids r = .ok d →
      ∃ movements, Movement.ofLines d.lines = .ok movements ∧
        (∀ id, (∃ m ∈ movements, m.productId = id) ↔
          ∃ c ∈ r.lines, ∃ p, Takes catalog c p ∧ p.id = id) ∧
        (∀ p, catalog.product? p.id = some p → p.kind = .menu →
          ((∃ m ∈ movements, m.productId = p.id) ↔ ∃ c ∈ r.lines, IsChosen catalog c p)) ∧
        (∀ needed, Movement.requirements d.lines = .ok needed →
          ∀ id, id ∈ needed.keys ↔ ∃ m ∈ movements, m.productId = id) ∧
        (catalog.OffersSimple → ∀ m ∈ movements,
          ∃ p, catalog.product? m.productId = some p ∧ p.kind = .simple)) ∧
    (∀ (shop after : Shop) call receipt, shop.place call r = (.ok ⟨receipt, false⟩, after) →
      ∃ sold, after.store.entries = shop.store.entries ++ sold ∧
        ∀ e ∈ sold, e.reason = .sale ∧ ∃ c ∈ r.lines, ∃ p ∈ shop.store.products,
          Takes (shop.store.catalogOf r.productIds) c p ∧ p.id = e.productId ∧
          (shop.store.OffersSimple → p.kind = .simple)) := by
  constructor
  · intro d hbuild
    obtain ⟨movements, hmovements, hmoved, hneeded⟩ := exists_movements hbuild
    have htaken (id : String) : (∃ m ∈ movements, m.productId = id) ↔
        ∃ c ∈ r.lines, ∃ p, Takes catalog c p ∧ p.id = id := by
      rw [hmoved, mem_moved_build hbuild]
    refine ⟨movements, hmovements, htaken, fun p hp hmenu => ?_, fun needed h id => ?_, ?_⟩
    · rw [htaken]
      refine exists_congr fun c => and_congr_right fun _ => ?_
      constructor
      · rintro ⟨q, htakes, hid⟩
        have hsame := htakes.product?
        rw [hid, hp, Option.some.injEq] at hsame
        exact (hsame ▸ htakes).menu hmenu
      · exact fun hchosen => ⟨p, Or.inr hchosen, rfl⟩
    · rw [hneeded needed h, hmoved]
    · intro hoffers m hm
      obtain ⟨c, -, p, htakes, hid⟩ := (htaken m.productId).mp ⟨m, hm, rfl⟩
      exact ⟨p, hid ▸ htakes.product?, htakes.kind hoffers⟩
  · intro shop after call receipt hplace
    obtain ⟨sold, hentries, hsold⟩ := Shop.exists_sold hplace
    refine ⟨sold, hentries, fun e he => ?_⟩
    obtain ⟨hreason, c, hc, p, htakes, hid⟩ := hsold e he
    have hstored := Store.mem_catalogOf (List.mem_of_find?_eq_some htakes.product?)
    exact ⟨hreason, c, hc, p, hstored, htakes, hid, fun hoffers => htakes.kind (hoffers.catalogOf _)⟩

/-- A lunch of which the main is a snack, and the snack is a menu itself. -/
def snackInLunch : List (Call × Action) :=
  [(Call.on 20000 'a',
      .addProduct ⟨"soup", "Soup", .simple, ⟨850⟩, true, ⟨20000, 0, 0⟩, ⟨20000, 0, 0⟩⟩),
   (Call.on 20000 'b',
      .addProduct ⟨"snack", "Snack", .menu, ⟨500⟩, true, ⟨20000, 0, 0⟩, ⟨20000, 0, 0⟩⟩),
   (Call.on 20000 'c',
      .addProduct ⟨"lunch", "Lunch", .menu, ⟨1200⟩, true, ⟨20000, 0, 0⟩, ⟨20000, 0, 0⟩⟩),
   (Call.on 20000 'd', .addSlot ⟨"side", "snack", "Side", 1, ["soup"]⟩),
   (Call.on 20000 'e', .addSlot ⟨"main", "lunch", "Main", 1, ["snack"]⟩)]

/-- The snack goes out of stock with the lunch and the soup does not, though the snack by itself
is the soup. Before the lunch offered the snack, only the soup could go. -/
theorem stock_of_snackInLunch :
    let shop (steps : Nat) := (Run.play Settings.standard (snackInLunch.take steps)).2
    let call := Call.on 20000 'f'
    let lunch : OrderRequest :=
      ⟨some "c-7", none, .pos, none, [⟨"lunch", 2, [⟨"main", "snack"⟩]⟩]⟩
    let snack : OrderRequest :=
      ⟨some "c-7", none, .pos, none, [⟨"snack", 2, [⟨"side", "soup"⟩]⟩]⟩
    (∃ d movements, build ((shop 5).store.catalogOf lunch.productIds) call.pricedAt call.ids lunch =
        .ok d ∧
      Movement.ofLines d.lines = .ok movements ∧ (∃ m ∈ movements, m.productId = "snack") ∧
      ∃ p ∈ (shop 5).store.products, p.id = "snack" ∧ p.kind = .menu) ∧
    (shop 4).store.OffersSimple ∧
    (∃ receipt after sold, (shop 4).place call snack = (.ok ⟨receipt, false⟩, after) ∧
      after.store.entries = (shop 4).store.entries ++ sold ∧
      ∀ e ∈ sold, e.reason = .sale ∧
        ∃ p ∈ (shop 4).store.products, p.id = e.productId ∧ p.kind = .simple) := by
  intro shop call lunch snack
  have hoffers : (shop 4).store.OffersSimple := by decide +kernel
  refine ⟨?_, hoffers, ?_⟩
  · have hpriced : (build ((shop 5).store.catalogOf lunch.productIds) call.pricedAt call.ids
        lunch).map (fun d => d.lines.length) = .ok 2 := by
      decide +kernel
    have hlunch : ((shop 5).store.catalogOf lunch.productIds).product? "lunch" =
        some ⟨"lunch", "Lunch", .menu, ⟨1200⟩, true, ⟨20000, 0, 0⟩, ⟨20000, 0, 0⟩⟩ := by
      decide +kernel
    have hslots : ((shop 5).store.catalogOf lunch.productIds).slots "lunch" =
        [⟨"main", "lunch", "Main", 1, ["snack"]⟩] := by
      decide +kernel
    have hsnack : ((shop 5).store.catalogOf lunch.productIds).product? "snack" =
        some ⟨"snack", "Snack", .menu, ⟨500⟩, true, ⟨20000, 0, 0⟩, ⟨20000, 0, 0⟩⟩ := by
      decide +kernel
    have hchosen : IsChosen ((shop 5).store.catalogOf lunch.productIds)
        ⟨"lunch", 2, [⟨"main", "snack"⟩]⟩
        ⟨"snack", "Snack", .menu, ⟨500⟩, true, ⟨20000, 0, 0⟩, ⟨20000, 0, 0⟩⟩ := by
      refine ⟨_, hlunch, rfl, _, hslots ▸ List.mem_singleton_self _, "snack", ?_⟩
      exact ⟨by decide, by decide, hsnack, rfl⟩
    obtain ⟨d, hbuild, -⟩ := Calculation.map_eq_ok.mp hpriced
    obtain ⟨movements, hmovements, -, hmenus, -⟩ :=
      (stock_is_taken_of_simple_products_and_options _ _ _ lunch).1 d hbuild
    have hmoved := (hmenus _ hsnack rfl).mpr ⟨_, List.mem_singleton_self _, hchosen⟩
    exact ⟨d, movements, hbuild, hmovements, hmoved, by decide +kernel⟩
  · have hanswer : ((shop 4).place call snack).1.map (·.replayed) = .ok false := by decide +kernel
    obtain ⟨⟨receipt, _⟩, hreceipt, rfl⟩ := Calculation.map_eq_ok.mp hanswer
    have hplace : (shop 4).place call snack =
        (.ok ⟨receipt, false⟩, ((shop 4).place call snack).2) :=
      Prod.ext hreceipt rfl
    obtain ⟨sold, hentries, hsold⟩ := (stock_is_taken_of_simple_products_and_options
      ((shop 4).store.catalogOf snack.productIds) call.pricedAt call.ids snack).2 _ _ _ _ hplace
    refine ⟨receipt, _, sold, hplace, hentries, fun e he => ?_⟩
    obtain ⟨hreason, -, -, p, hp, -, hid, hkind⟩ := hsold e he
    exact ⟨hreason, p, hp, hid, hkind hoffers⟩

end Draft

end OrderLedger
