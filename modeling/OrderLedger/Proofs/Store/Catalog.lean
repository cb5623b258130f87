import OrderLedger.Proofs.Calculations
import OrderLedger.Proofs.Store.Work
import OrderLedger.Store.Catalog

/-!
What the statements of the catalog do when they succeed, and which products a cart is
priced against.
-/

namespace OrderLedger.Store

open Work Calculation

theorem insertProduct_eq_ok {p : Product} {s t : Store} :
    insertProduct p s = .ok t ↔
      0 ≤ p.price.cents ∧ (∀ q ∈ s.products, q.id ≠ p.id) ∧
        t = { s with products := s.products ++ [p] } := by
  rw [insertProduct, refuse_eq_ok, refuse_eq_ok, Int.not_lt, Except.ok.injEq, eq_comm (b := t)]
  simp

theorem insertSlotRow_eq_ok {slot : MenuSlot} {s t : Store} :
    insertSlotRow slot s = .ok t ↔
      (∀ row ∈ s.slots, row.id ≠ slot.id) ∧ (∃ p ∈ s.products, p.id = slot.menuId) ∧
        t = { s with slots := s.slots ++ [⟨slot.id, slot.menuId, slot.name, slot.sequence⟩] } := by
  rw [insertSlotRow, refuse_eq_ok, refuse_eq_ok, Except.ok.injEq, eq_comm (b := t)]
  simp

theorem insertOption_eq_ok {option : SlotOption} {s t : Store} :
    insertOption option s = .ok t ↔
      option ∉ s.options ∧ (∃ row ∈ s.slots, row.id = option.slotId) ∧
        (∃ p ∈ s.products, p.id = option.productId) ∧
        t = { s with options := s.options ++ [option] } := by
  rw [insertOption, refuse_eq_ok, refuse_eq_ok, Except.ok.injEq, eq_comm (b := t)]
  simp [and_assoc]

theorem updateActive_eq_ok {id : String} {isActive : Bool} {now : Time.Instant} {s t : Store}
    (h : updateActive id isActive now s = .ok t) :
    t = { s with
      products := s.products.map fun p =>
        if p.id == id then { p with isActive, updatedAt := now } else p } := by
  unfold updateActive at h
  split at h
  · cases h
    rfl
  · cases h

/-- Inserted options stand at the end of the table, in order. They are distinct and new, and refer
to a slot and to products that are there. -/
theorem yields_insertOptions {slotId : String} {productIds : List String} {s t : Store} {u : Unit} :
    (productIds.forM fun productId =>
      Work.execute (insertOption ⟨slotId, productId⟩)).Yields s u t ↔
      t = { s with options := s.options ++ productIds.map fun productId => ⟨slotId, productId⟩ } ∧
        productIds.Nodup ∧ ∀ productId ∈ productIds, ⟨slotId, productId⟩ ∉ s.options ∧
          (∃ row ∈ s.slots, row.id = slotId) ∧ ∃ p ∈ s.products, p.id = productId := by
  induction productIds generalizing s with
  | nil =>
      change (pure PUnit.unit : Work StorageError PUnit).Yields s u t ↔ _
      simp
  | cons productId rest ih =>
      rw [yields_forM_cons]
      simp only [yields_execute, insertOption_eq_ok, ih]
      constructor
      · rintro ⟨v, ⟨hnew, hslot, hproduct, rfl⟩, rfl, hnodup, hrest⟩
        refine ⟨by simp, List.nodup_cons.mpr ⟨fun hmem => ?_, hnodup⟩, ?_⟩
        · exact (hrest productId hmem).1 (List.mem_append_right _ List.mem_cons_self)
        · refine List.forall_mem_cons.mpr ⟨⟨hnew, hslot, hproduct⟩, fun id hid => ?_⟩
          exact ⟨fun hold => (hrest id hid).1 (List.mem_append_left _ hold), (hrest id hid).2⟩
      · rintro ⟨rfl, hnodup, hall⟩
        obtain ⟨hfirst, hnodup⟩ := List.nodup_cons.mp hnodup
        obtain ⟨⟨hnew, hslot, hproduct⟩, hrest⟩ := List.forall_mem_cons.mp hall
        refine ⟨_, ⟨hnew, hslot, hproduct, rfl⟩, by simp, hnodup, fun id hid => ?_⟩
        refine ⟨fun hmem => ?_, (hrest id hid).2⟩
        rcases List.mem_append.mp hmem with hold | hsame
        · exact (hrest id hid).1 hold
        · cases List.mem_singleton.mp hsame
          exact hfirst hid

/-- A slot that may be entered: its id is new, its menu is a stored product, and its options are
distinct stored products. -/
structure AdmitsSlot (s : Store) (slot : MenuSlot) : Prop where
  isNew : ∀ row ∈ s.slots, row.id ≠ slot.id
  menu : ∃ p ∈ s.products, p.id = slot.menuId
  distinct : slot.options.Nodup
  options : ∀ productId ∈ slot.options,
    ⟨slot.id, productId⟩ ∉ s.options ∧ ∃ p ∈ s.products, p.id = productId

/-- The store with a slot at the end of its table, and the options of the slot at the end of
theirs. -/
def withSlot (s : Store) (slot : MenuSlot) : Store :=
  { s with
    slots := s.slots ++ [⟨slot.id, slot.menuId, slot.name, slot.sequence⟩]
    options := s.options ++ slot.options.map fun productId => ⟨slot.id, productId⟩ }

theorem yields_insertSlotWork {slot : MenuSlot} {s t : Store} {u : Unit} :
    (insertSlotWork slot).Yields s u t ↔ s.AdmitsSlot slot ∧ t = s.withSlot slot := by
  simp only [insertSlotWork, yields_bind, yields_execute, insertSlotRow_eq_ok,
    yields_insertOptions]
  constructor
  · rintro ⟨_, v, ⟨hnew, hmenu, rfl⟩, rfl, hdistinct, hoptions⟩
    exact ⟨⟨hnew, hmenu, hdistinct, fun id hid => (hoptions id hid).imp_right And.right⟩, rfl⟩
  · rintro ⟨hadmits, rfl⟩
    refine ⟨(), _, ⟨hadmits.isNew, hadmits.menu, rfl⟩, rfl, hadmits.distinct, fun id hid => ?_⟩
    exact ⟨(hadmits.options id hid).1, ⟨_, List.mem_append_right _ List.mem_cons_self, rfl⟩,
      (hadmits.options id hid).2⟩

/-- The options of a merged slot come from its own rows. -/
theorem mem_options_mergeRows {rows : List (SlotRow × Option String)} {slot : MenuSlot}
    {id : String} (hslot : slot ∈ mergeRows rows) (hid : id ∈ slot.options) :
    ∃ row, (row, some id) ∈ rows ∧ row.id = slot.id := by
  induction rows generalizing slot with
  | nil => cases hslot
  | cons head rest ih =>
      obtain ⟨row, option⟩ := head
      have hfirst (hoption : id ∈ option.toList) :
          ∃ other, (other, some id) ∈ (row, option) :: rest ∧ other.id = row.id := by
        rw [Option.mem_toList.mp hoption]
        exact ⟨row, List.mem_cons_self, rfl⟩
      have hlater {slotId : String} (h : ∃ other, (other, some id) ∈ rest ∧ other.id = slotId) :
          ∃ other, (other, some id) ∈ (row, option) :: rest ∧ other.id = slotId :=
        h.imp fun _ hother => ⟨List.mem_cons_of_mem _ hother.1, hother.2⟩
      unfold mergeRows at hslot
      split at hslot
      · next first slots hmerged =>
          rw [hmerged] at ih
          split at hslot
          · next hsame =>
              rcases List.mem_cons.mp hslot with rfl | hslot
              · rcases List.mem_append.mp hid with hoption | hid
                · exact beq_iff_eq.mp hsame ▸ hfirst hoption
                · exact hlater (@ih first List.mem_cons_self hid)
              · exact hlater (ih (List.mem_cons_of_mem _ hslot) hid)
          · rcases List.mem_cons.mp hslot with rfl | hslot
            · exact hfirst hid
            · exact hlater (ih hslot hid)
      · rw [List.mem_singleton.mp hslot] at hid ⊢
        exact hfirst hid

/-- What a slot of a menu offers is stored as an option of the slot. -/
theorem mem_options_menuSlots {s : Store} {menuId id : String} {slot : MenuSlot}
    (hslot : slot ∈ s.menuSlots menuId) (hid : id ∈ slot.options) : ⟨slot.id, id⟩ ∈ s.options := by
  obtain ⟨row, hrow, hsame⟩ := mem_options_mergeRows hslot hid
  obtain ⟨stored, -, hrow⟩ := List.mem_flatMap.mp hrow
  split at hrow
  · cases List.mem_singleton.mp hrow
  · obtain ⟨productId, hproduct, heq⟩ := List.mem_map.mp hrow
    cases heq
    rw [List.mem_mergeSort] at hproduct
    obtain ⟨o, ho, rfl⟩ := List.mem_map.mp hproduct
    obtain ⟨ho, hslotId⟩ := List.mem_filter.mp ho
    rw [← hsame, ← beq_iff_eq.mp hslotId]
    exact ho

/-- A cart is priced against stored products. -/
theorem mem_catalogOf {s : Store} {ids : List String} {p : Product}
    (h : p ∈ (s.catalogOf ids).products) : p ∈ s.products := by
  have hfold (ps : List Product) (catalog : Catalog)
      (hps : ∀ q ∈ ps, q ∈ s.products) (hcatalog : ∀ q ∈ catalog.products, q ∈ s.products) :
      ∀ q ∈ (ps.foldl
        (fun catalog q =>
          (if q.kind = .menu then catalog.setSlots q.id (s.menuSlots q.id) else catalog).addProduct
            q)
        catalog).products, q ∈ s.products := by
    induction ps generalizing catalog with
    | nil => exact hcatalog
    | cons q rest ih =>
        apply ih _ (fun r hr => hps r (List.mem_cons_of_mem q hr))
        intro r hr
        rcases List.mem_cons.mp hr with rfl | hr
        · exact hps r List.mem_cons_self
        · have hmem := (List.mem_filter.mp hr).1
          split at hmem <;> exact hcatalog r hmem
  exact hfold _ Catalog.empty (fun q hq => (List.mem_filter.mp hq).1) (fun _ hq => by cases hq) p h

end OrderLedger.Store
