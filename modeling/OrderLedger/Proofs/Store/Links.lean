import OrderLedger.Proofs.Integrity
import OrderLedger.Proofs.Order.Rows
import OrderLedger.Proofs.Store.Cascade
import OrderLedger.Proofs.Store.Catalog
import OrderLedger.Proofs.Store.Preserved

/-!
The references between the tables. Whatever ids and fields a statement is given, it leaves every
reference pointing at a row that is there, and no two rows of a table with the same id; a
statement that would not is refused. Here the parent of a line may belong to another order, and
a line may be its own parent.
-/

namespace OrderLedger

/-- The references of the catalog, and its ids. -/
structure CatalogLinks (products : List Product) (slots : List SlotRow)
    (options : List SlotOption) : Prop where
  productIds : (products.map (·.id)).Nodup
  slotIds : (slots.map (·.id)).Nodup
  optionKeys : options.Nodup
  menus : ∀ row ∈ slots, row.menuId ∈ products.map (·.id)
  optionSlots : ∀ o ∈ options, o.slotId ∈ slots.map (·.id)
  optionProducts : ∀ o ∈ options, o.productId ∈ products.map (·.id)

/-- The references between orders and what belongs to them, and their ids. -/
structure OrderLinks (orders : List Order) (lines : List Line) (payments : List Payment)
    (handOvers : List HandOver) : Prop where
  orderIds : (orders.map (·.id)).Nodup
  lineIds : (lines.map (·.id)).Nodup
  paymentIds : (payments.map (·.id)).Nodup
  handOverIds : (handOvers.map (·.id)).Nodup
  /-- No line is handed over twice. -/
  handedOnce : (handOvers.map (·.lineId)).Nodup
  owners : ∀ l ∈ lines, l.orderId ∈ orders.map (·.id)
  parents : ∀ l ∈ lines, ∀ parent, l.parentId = some parent → parent ∈ lines.map (·.id)
  components : ∀ l ∈ lines, l.type = .component → l.parentId.isSome
  payers : ∀ p ∈ payments, p.orderId ∈ orders.map (·.id)
  handedOver : ∀ h ∈ handOvers, h.lineId ∈ lines.map (·.id)

/-- Every reference points at a row, and ids are unique. -/
structure Store.IsLinked (s : Store) : Prop where
  catalog : CatalogLinks s.products s.slots s.options
  orders : OrderLinks s.orders s.lines s.payments s.handOvers

private theorem nodup_map_concat {α β : Type} {f : α → β} {xs : List α} {a : α}
    (h : (xs.map f).Nodup) (hnew : ∀ x ∈ xs, f x ≠ f a) : ((xs ++ [a]).map f).Nodup := by
  rw [List.map_append, List.map_singleton, ← List.concat_eq_append]
  refine h.concat fun hmem => ?_
  obtain ⟨x, hx, heq⟩ := List.mem_map.mp hmem
  exact hnew x hx heq

private theorem mem_map_append {α β : Type} {f : α → β} {xs : List α} {b : β}
    (h : b ∈ xs.map f) (more : List α) : b ∈ (xs ++ more).map f := by
  rw [List.map_append]
  exact List.mem_append_left _ h

section Catalog

variable {products : List Product} {slots : List SlotRow} {options : List SlotOption}

theorem CatalogLinks.product (h : CatalogLinks products slots options) {p : Product}
    (hnew : ∀ q ∈ products, q.id ≠ p.id) : CatalogLinks (products ++ [p]) slots options :=
  ⟨nodup_map_concat h.productIds hnew, h.slotIds, h.optionKeys,
    fun row hrow => mem_map_append (h.menus row hrow) _, h.optionSlots,
    fun o ho => mem_map_append (h.optionProducts o ho) _⟩

theorem CatalogLinks.slot (h : CatalogLinks products slots options) {row : SlotRow}
    (hnew : ∀ other ∈ slots, other.id ≠ row.id) (hmenu : row.menuId ∈ products.map (·.id)) :
    CatalogLinks products (slots ++ [row]) options := by
  refine ⟨h.productIds, nodup_map_concat h.slotIds hnew, h.optionKeys, ?_,
    fun o ho => mem_map_append (h.optionSlots o ho) _, h.optionProducts⟩
  intro other hother
  rcases List.mem_append.mp hother with hother | hother
  · exact h.menus other hother
  · rwa [List.mem_singleton.mp hother]

theorem CatalogLinks.option (h : CatalogLinks products slots options) {option : SlotOption}
    (hnew : option ∉ options) (hslot : option.slotId ∈ slots.map (·.id))
    (hproduct : option.productId ∈ products.map (·.id)) :
    CatalogLinks products slots (options ++ [option]) := by
  refine ⟨h.productIds, h.slotIds, ?_, h.menus, ?_, ?_⟩
  · rw [← List.concat_eq_append]
    exact h.optionKeys.concat hnew
  all_goals
    intro other hother
    rcases List.mem_append.mp hother with hother | hother
  · exact h.optionSlots other hother
  · rwa [List.mem_singleton.mp hother]
  · exact h.optionProducts other hother
  · rwa [List.mem_singleton.mp hother]

end Catalog

section Orders

variable {orders : List Order} {lines : List Line} {payments : List Payment}
  {handOvers : List HandOver}

theorem OrderLinks.order (h : OrderLinks orders lines payments handOvers) {o : Order}
    (hnew : ∀ other ∈ orders, other.id ≠ o.id) :
    OrderLinks (orders ++ [o]) lines payments handOvers :=
  ⟨nodup_map_concat h.orderIds hnew, h.lineIds, h.paymentIds, h.handOverIds, h.handedOnce,
    fun l hl => mem_map_append (h.owners l hl) _, h.parents, h.components,
    fun p hp => mem_map_append (h.payers p hp) _, h.handedOver⟩

theorem OrderLinks.line (h : OrderLinks orders lines payments handOvers) {l : Line}
    (hnew : l.id ∉ lines.map (·.id)) (howner : l.orderId ∈ orders.map (·.id))
    (hparent : ∀ parent, l.parentId = some parent → parent = l.id ∨ parent ∈ lines.map (·.id))
    (hcomponent : l.type = .component → l.parentId.isSome) :
    OrderLinks orders (lines ++ [l]) payments handOvers := by
  have hcases {m : Line} (hm : m ∈ lines ++ [l]) : m ∈ lines ∨ m = l := by
    simpa using hm
  refine ⟨h.orderIds, ?_, h.paymentIds, h.handOverIds, h.handedOnce, ?_, ?_, ?_, h.payers,
    fun o ho => mem_map_append (h.handedOver o ho) _⟩
  · exact nodup_map_concat h.lineIds fun m hm heq => hnew (heq ▸ List.mem_map_of_mem hm)
  · intro m hm
    rcases hcases hm with hm | rfl
    · exact h.owners m hm
    · exact howner
  · intro m hm parent heq
    rcases hcases hm with hm | rfl
    · exact mem_map_append (h.parents m hm parent heq) _
    · rcases hparent parent heq with rfl | hmem
      · exact List.mem_map_of_mem hm
      · exact mem_map_append hmem _
  · intro m hm
    rcases hcases hm with hm | rfl
    · exact h.components m hm
    · exact hcomponent

theorem OrderLinks.payment (h : OrderLinks orders lines payments handOvers) {p : Payment}
    (hnew : ∀ q ∈ payments, q.id ≠ p.id) (hpayer : p.orderId ∈ orders.map (·.id)) :
    OrderLinks orders lines (payments ++ [p]) handOvers := by
  refine ⟨h.orderIds, h.lineIds, nodup_map_concat h.paymentIds hnew, h.handOverIds, h.handedOnce,
    h.owners, h.parents, h.components, ?_, h.handedOver⟩
  intro q hq
  rcases List.mem_append.mp hq with hq | hq
  · exact h.payers q hq
  · rwa [List.mem_singleton.mp hq]

theorem OrderLinks.handOver (h : OrderLinks orders lines payments handOvers) {mark : HandOver}
    (hnew : ∀ other ∈ handOvers, other.lineId ≠ mark.lineId ∧ other.id ≠ mark.id)
    (hline : mark.lineId ∈ lines.map (·.id)) :
    OrderLinks orders lines payments (handOvers ++ [mark]) := by
  refine ⟨h.orderIds, h.lineIds, h.paymentIds,
    nodup_map_concat h.handOverIds fun other hother => (hnew other hother).2,
    nodup_map_concat h.handedOnce fun other hother => (hnew other hother).1,
    h.owners, h.parents, h.components, h.payers, ?_⟩
  intro other hother
  rcases List.mem_append.mp hother with hother | hother
  · exact h.handedOver other hother
  · rwa [List.mem_singleton.mp hother]

/-- Orders may change in everything but their ids. -/
theorem OrderLinks.of_ids (h : OrderLinks orders lines payments handOvers) {changed : List Order}
    (hids : changed.map (·.id) = orders.map (·.id)) :
    OrderLinks changed lines payments handOvers :=
  ⟨hids ▸ h.orderIds, h.lineIds, h.paymentIds, h.handOverIds, h.handedOnce, hids ▸ h.owners,
    h.parents, h.components, hids ▸ h.payers, h.handedOver⟩

/-- What is left when an order falls refers to what is left. -/
theorem OrderLinks.cascade {s : Store} (h : OrderLinks s.orders s.lines s.payments s.handOvers)
    (orderId : String) : OrderLinks (s.cascade orderId).orders (s.cascade orderId).lines
      (s.cascade orderId).payments (s.cascade orderId).handOvers := by
  have horder {id : String} (hid : id ∈ s.orders.map (·.id)) (hne : id ≠ orderId) :
      id ∈ (s.cascade orderId).orders.map (·.id) := by
    obtain ⟨o, ho, rfl⟩ := List.mem_map.mp hid
    exact List.mem_map_of_mem (List.mem_filter.mpr ⟨ho, by simpa using hne⟩)
  have hline {id : String} (hid : id ∈ s.lines.map (·.id)) (hstays : ¬ s.FallsWith orderId id) :
      id ∈ (s.cascade orderId).lines.map (·.id) := by
    obtain ⟨l, hl, rfl⟩ := List.mem_map.mp hid
    exact List.mem_map_of_mem (List.mem_filter.mpr ⟨hl, by simpa using hstays⟩)
  have hkept {l : Line} (hl : l ∈ (s.cascade orderId).lines) :
      l ∈ s.lines ∧ ¬ s.FallsWith orderId l.id := by
    simpa [Store.cascade] using hl
  refine ⟨h.orderIds.sublist (List.filter_sublist.map _), h.lineIds.sublist
    (List.filter_sublist.map _), h.paymentIds.sublist (List.filter_sublist.map _),
    h.handOverIds.sublist (List.filter_sublist.map _),
    h.handedOnce.sublist (List.filter_sublist.map _), ?_, ?_, ?_, ?_, ?_⟩
  · intro l hl
    obtain ⟨hl, hstays⟩ := hkept hl
    refine horder (h.owners l hl) fun heq => hstays ?_
    exact .own hl heq
  · intro l hl parent hparent
    obtain ⟨hl, hstays⟩ := hkept hl
    refine hline (h.parents l hl parent hparent) fun hfalls => hstays ?_
    exact .under hl hparent hfalls
  · intro l hl
    exact h.components l (hkept hl).1
  · intro p hp
    obtain ⟨hp, hne⟩ := List.mem_filter.mp hp
    exact horder (h.payers p hp) (by simpa using hne)
  · intro mark hmark
    obtain ⟨hmark, hstays⟩ := List.mem_filter.mp hmark
    exact hline (h.handedOver mark hmark) (by simpa using hstays)

end Orders

namespace Store

open Work Calculation

theorem isLinked_empty : Store.empty.IsLinked := by
  constructor <;> constructor <;> simp [Store.empty]

variable {ε : Type}

theorem preserves_insertProduct (p : Product) :
    (Work.execute (insertProduct p)).Preserves IsLinked := by
  refine preserves_execute fun s t h hs => ?_
  obtain ⟨-, hnew, rfl⟩ := insertProduct_eq_ok.mp h
  exact ⟨hs.catalog.product hnew, hs.orders⟩

theorem preserves_insertSlotWork (slot : MenuSlot) : (insertSlotWork slot).Preserves IsLinked := by
  refine preserves_bind (preserves_execute fun s t h hs => ?_) fun _ =>
    preserves_forM (fun productId => preserves_execute fun s t h hs => ?_) _
  · obtain ⟨hnew, hmenu, rfl⟩ := insertSlotRow_eq_ok.mp h
    exact ⟨hs.catalog.slot hnew (List.mem_map.mpr hmenu), hs.orders⟩
  · obtain ⟨hnew, hslot, hproduct, rfl⟩ := insertOption_eq_ok.mp h
    exact ⟨hs.catalog.option hnew (List.mem_map.mpr hslot) (List.mem_map.mpr hproduct), hs.orders⟩

theorem preserves_insertOrder (o : Order) : (Work.execute (insertOrder o)).Preserves IsLinked := by
  refine preserves_execute fun s t h hs => ?_
  obtain ⟨-, hnew, rfl⟩ := insertOrder_eq_ok.mp h
  exact ⟨hs.catalog, hs.orders.order (hasOrder_eq_false.mp hnew)⟩

theorem preserves_insertLines (lines : List Line) : (insertLines lines).Preserves IsLinked := by
  refine preserves_forM (fun l => preserves_execute fun s t h hs => ?_) lines
  obtain ⟨⟨hrule, hnew, horder, hparent⟩, rfl⟩ := insertLine_eq_ok.mp h
  refine ⟨hs.catalog, hs.orders.line (hasLine_eq_false.mp hnew) (hasOrder_iff_mem.mp horder) ?_
    (brokenRule?_eq_none.mp hrule).2.2⟩
  intro parent heq
  simpa [heq, hasLine] using hparent

theorem preserves_insertPayment (p : Payment) :
    (Work.execute (insertPayment p)).Preserves IsLinked := by
  refine preserves_execute fun s t h hs => ?_
  obtain ⟨-, hnew, horder, rfl⟩ := insertPayment_eq_ok.mp h
  exact ⟨hs.catalog, hs.orders.payment hnew (hasOrder_iff_mem.mp horder)⟩

theorem preserves_transition (id : String) (source target : Status) (now : Time.Instant) :
    (transition id source target now : Work ε Bool).Preserves IsLinked := by
  refine preserves_of_yields fun s hs => ⟨_, _, yields_transition.mpr ⟨rfl, rfl⟩, ?_⟩
  split
  · exact ⟨hs.catalog, hs.orders.of_ids (ids_withStatus s source target now)⟩
  · exact hs

theorem preserves_deleteIfPending (id : String) :
    (deleteIfPending id : Work ε Bool).Preserves IsLinked := by
  refine preserves_of_yields fun s hs => ⟨_, _, yields_deleteIfPending.mpr ⟨rfl, rfl⟩, ?_⟩
  split
  · rw [withoutOrder_eq_cascade]
    exact ⟨hs.catalog, hs.orders.cascade id⟩
  · exact hs

/-- Lines that are there may be marked. Marking leaves the lines as they are, so those of a whole
list are there until the end of it. -/
theorem preserves_markEach {lines : List Line} {lineIds : List String} (now : Time.Instant)
    (ids : Nat → String) (n : Nat) (hids : ∀ id ∈ lineIds, id ∈ lines.map (·.id)) :
    (markEach now ids n lineIds : Work ε Nat).Preserves
      fun s => s.IsLinked ∧ s.lines = lines := by
  induction lineIds generalizing n with
  | nil => exact preserves_pure _
  | cons lineId rest ih =>
      refine preserves_bind ?_ fun _ => preserves_bind
        (ih (n + 1) fun id hid => hids id (List.mem_cons_of_mem _ hid)) fun _ => preserves_pure _
      refine preserves_get_bind ?_
      rintro s ⟨hs, rfl⟩
      have hline := hids lineId List.mem_cons_self
      split
      · exact ⟨hs, rfl⟩
      · next hnew =>
          refine ⟨⟨hs.catalog, hs.orders.handOver ?_ hline⟩, rfl⟩
          simpa using hnew

theorem preserves_handOver (now : Time.Instant) (ids : Nat → String) (lineIds : List String) :
    (handOver now ids lineIds).Preserves IsLinked := by
  refine preserves_get_bind fun s hs => ?_
  split
  · exact hs
  · next hnone =>
      refine (preserves_markEach now ids 0 (fun id hid => ?_) s ⟨hs, rfl⟩).1
      have hfound := List.find?_eq_none.mp hnone id hid
      simpa [hasLine] using hfound

end Store

end OrderLedger
