import OrderLedger.Proofs.Order.Footprint
import OrderLedger.Proofs.Order.Selections
import OrderLedger.Proofs.Store.Listing
import OrderLedger.Proofs.Text.Bytes

/-!
The slots of a menu, read back. Whatever products and slots are entered one after another, each
slot that was let in is listed once under its menu, with its own options and no others; a slot
that was refused has left no row. A catalog presents the slots of a menu as they are listed.
-/

namespace OrderLedger

open Work

/-- Something that is entered into the catalog. -/
inductive CatalogEntry where
  | product (p : Product)
  | slot (given : MenuSlot)

namespace CatalogEntry

def enter (s : Store) : CatalogEntry → Except (Fault StorageError) Unit × Store
  | .product p => Store.addProduct p s
  | .slot given => Store.addSlot given s

/-- The slot that an entry has brought in, by the answer to it. -/
def accepted : CatalogEntry → Except (Fault StorageError) Unit → List MenuSlot
  | .slot given, .ok () => [given]
  | .slot _, .error _ => []
  | .product _, _ => []

/-- Makes entries one after another, and lists the slots that were let in. -/
def enterAll : List CatalogEntry → Store → List MenuSlot × Store
  | [], s => ([], s)
  | entry :: rest, s =>
      let (answer, after) := entry.enter s
      let (slots, last) := enterAll rest after
      (entry.accepted answer ++ slots, last)

end CatalogEntry

/-- A slot was read back as it was given, with its options in the order of their bytes. -/
structure MenuSlot.ReadAs (given read : MenuSlot) : Prop where
  fields : read = { given with options := read.options }
  options : read.options.Perm given.options
  ascending : read.options.Pairwise fun a b => Text.Utf8.bytes a < Text.Utf8.bytes b

/-- A listing has each of the given slots once, by sequence and then by the bytes of its id. -/
structure MenuSlot.ListedAs (given listed : List MenuSlot) : Prop where
  each : ∃ arranged, arranged.Perm given ∧ List.Forall₂ ReadAs arranged listed
  ordered : listed.Pairwise fun a b => a.sequence < b.sequence ∨
    a.sequence = b.sequence ∧ Text.Utf8.bytes a.id < Text.Utf8.bytes b.id

namespace Store

variable {s : Store} {slot : MenuSlot} {accepted : List MenuSlot} {menuId : String}

/-- A slot as a row of its table. -/
def rowOf (slot : MenuSlot) : SlotRow := ⟨slot.id, slot.menuId, slot.name, slot.sequence⟩

/-- The options of a slot as rows of their table. -/
def optionRows (slot : MenuSlot) : List SlotOption :=
  slot.options.map fun productId => ⟨slot.id, productId⟩

/-- The tables have the rows of these slots and no others. -/
structure HasSlots (s : Store) (accepted : List MenuSlot) : Prop where
  slots : s.slots = accepted.map rowOf
  options : s.options = accepted.flatMap optionRows
  ids : (accepted.map (·.id)).Nodup
  distinct : ∀ slot ∈ accepted, slot.options.Nodup

theorem addSlot_eq_ok {t : Store} :
    addSlot slot s = (.ok (), t) ↔ s.AdmitsSlot slot ∧ t = s.withSlot slot := by
  rw [addSlot, transactAll_eq_ok, yields_insertSlotWork]

/-- A slot is let in exactly if it may be. -/
theorem addSlot_lets_in : (addSlot slot s).1 = .ok () ↔ s.AdmitsSlot slot := by
  constructor
  · intro h
    exact (addSlot_eq_ok.mp (Prod.ext h rfl : addSlot slot s = (.ok (), (addSlot slot s).2))).1
  · intro h
    exact congrArg Prod.fst (addSlot_eq_ok.mpr ⟨h, rfl⟩)

theorem HasSlots.withSlot (h : s.HasSlots accepted) (hadmits : s.AdmitsSlot slot) :
    (s.withSlot slot).HasSlots (accepted ++ [slot]) := by
  refine ⟨?_, ?_, ?_, ?_⟩
  · rw [List.map_append, ← h.slots]
    rfl
  · rw [List.flatMap_append, ← h.options, List.flatMap_singleton]
    rfl
  · rw [List.map_append, List.map_singleton, ← List.concat_eq_append]
    refine h.ids.concat fun hmem => ?_
    obtain ⟨other, hother, heq⟩ := List.mem_map.mp hmem
    exact hadmits.isNew (rowOf other) (h.slots ▸ List.mem_map_of_mem hother) heq
  · intro other hother
    rcases List.mem_append.mp hother with hother | hother
    · exact h.distinct other hother
    · rw [List.mem_singleton.mp hother]
      exact hadmits.distinct

/-- An entry that fails leaves the store as it was. -/
theorem enter_eq_error {entry : CatalogEntry} {fault : Fault StorageError}
    (h : (entry.enter s).1 = .error fault) : (entry.enter s).2 = s := by
  rcases hentry : entry.enter s with ⟨answer, t⟩
  rw [hentry] at h
  cases h
  cases entry with
  | product p => exact transact_eq_error hentry
  | slot slot => exact transact_eq_error hentry

/-- After an entry the tables have one slot more if the entry has brought one in. -/
theorem HasSlots.enter (h : s.HasSlots accepted) (entry : CatalogEntry) :
    (entry.enter s).2.HasSlots (accepted ++ entry.accepted (entry.enter s).1) := by
  rcases hentry : entry.enter s with ⟨answer, t⟩
  cases answer with
  | error fault =>
      have hsame := enter_eq_error (congrArg Prod.fst hentry)
      rw [hentry] at hsame
      subst hsame
      cases entry <;> simpa [CatalogEntry.accepted] using h
  | ok u =>
      cases entry with
      | product p =>
          obtain ⟨-, -, rfl⟩ :=
            insertProduct_eq_ok.mp (yields_execute.mp (transactAll_eq_ok.mp hentry))
          rw [CatalogEntry.accepted, List.append_nil]
          exact ⟨h.slots, h.options, h.ids, h.distinct⟩
      | slot slot =>
          obtain ⟨hadmits, rfl⟩ := addSlot_eq_ok.mp hentry
          exact h.withSlot hadmits

/-- What holds of the tables at first and after every entry holds at the end. -/
theorem HasSlots.enterAll (h : s.HasSlots accepted) (entries : List CatalogEntry) :
    (CatalogEntry.enterAll entries s).2.HasSlots
      (accepted ++ (CatalogEntry.enterAll entries s).1) := by
  induction entries generalizing s accepted with
  | nil => simpa [CatalogEntry.enterAll] using h
  | cons entry rest ih =>
      have hrest := ih (h.enter entry)
      rw [List.append_assoc] at hrest
      exact hrest

theorem hasSlots_empty : Store.empty.HasSlots [] := by
  refine ⟨rfl, rfl, List.nodup_nil, ?_⟩
  intro slot hslot
  cases hslot

namespace HasSlots

theorem slotIds (h : s.HasSlots accepted) : (s.slots.map (·.id)).Nodup := by
  rw [h.slots, List.map_map]
  exact h.ids

/-- The options of a slot are those that it was given. -/
theorem optionsOf_eq (h : s.HasSlots accepted) (hslot : slot ∈ accepted) :
    s.optionsOf (rowOf slot) = slot.options := by
  obtain ⟨before, after, rfl⟩ := List.append_of_mem hslot
  have hids := h.ids
  rw [List.map_append, List.map_cons, List.nodup_middle, List.nodup_cons, ← List.map_append] at hids
  have hown : (optionRows slot).filter (fun o => o.slotId == slot.id) = optionRows slot := by
    refine List.filter_eq_self.mpr fun o ho => ?_
    obtain ⟨productId, -, rfl⟩ := List.mem_map.mp ho
    exact beq_self_eq_true slot.id
  have hothers (slots : List MenuSlot) (hslots : ∀ other ∈ slots, other ∈ before ++ after) :
      (slots.flatMap optionRows).filter (fun o => o.slotId == slot.id) = [] := by
    refine List.filter_eq_nil_iff.mpr fun o ho hsame => ?_
    obtain ⟨other, hother, ho⟩ := List.mem_flatMap.mp ho
    obtain ⟨productId, -, rfl⟩ := List.mem_map.mp ho
    exact hids.1 (List.mem_map.mpr ⟨other, hslots other hother, beq_iff_eq.mp hsame⟩)
  have hrows : s.options.filter (fun o => o.slotId == slot.id) = optionRows slot := by
    rw [h.options, List.flatMap_append, List.flatMap_cons, List.filter_append, List.filter_append,
      hown, hothers before fun _ => List.mem_append_left _,
      hothers after fun _ => List.mem_append_right _, List.nil_append, List.append_nil]
  change (s.options.filter fun o => o.slotId == slot.id).map (·.productId) = slot.options
  rw [hrows, optionRows, List.map_map]
  exact List.map_id slot.options

/-- The slots of a menu in order are those that were let in, in order. -/
theorem slotsInOrder_eq (h : s.HasSlots accepted) (menuId : String) :
    s.slotsInOrder menuId =
      ((accepted.filter fun slot => slot.menuId == menuId).mergeSort fun a b =>
        slotBefore (rowOf a) (rowOf b)).map rowOf := by
  rw [slotsInOrder, h.slots, List.filter_map, List.map_mergeSort]
  · rfl
  · intro a _ b _
    rfl

theorem readAs (h : s.HasSlots accepted) (hslot : slot ∈ accepted) :
    slot.ReadAs ((rowOf slot).withOptions (s.optionsInOrder (rowOf slot))) := by
  have hperm := s.optionsInOrder_perm (rowOf slot)
  rw [h.optionsOf_eq hslot] at hperm
  have hdistinct := hperm.nodup_iff.mpr (h.distinct slot hslot)
  refine ⟨rfl, hperm, ((s.optionsInOrder_pairwise (rowOf slot)).and hdistinct).imp ?_⟩
  rintro a b ⟨hle, hne⟩
  refine Text.Utf8.bytes_lt_iff.mpr ?_
  by_contra hnot
  exact hne (String.le_antisymm hle (String.not_lt.mp hnot))

/-- What is listed under a menu are the slots of that menu that were let in. -/
theorem listedAs (h : s.HasSlots accepted) (menuId : String) :
    MenuSlot.ListedAs (accepted.filter fun slot => slot.menuId == menuId) (s.menuSlots menuId) := by
  rw [menuSlots_eq_map h.slotIds]
  constructor
  · refine ⟨_, List.mergeSort_perm _ fun a b => slotBefore (rowOf a) (rowOf b), ?_⟩
    rw [h.slotsInOrder_eq, List.map_map, List.forall₂_map_right_iff, List.forall₂_same]
    intro slot hslot
    exact h.readAs (List.mem_of_mem_filter (List.mem_mergeSort.mp hslot))
  · refine List.pairwise_map.mpr (((s.slotsInOrder_pairwise menuId).and
      (List.pairwise_map.mp (ids_slotsInOrder h.slotIds))).imp ?_)
    rintro a b ⟨hbefore, hne⟩
    refine (slotBefore_iff.mp hbefore).imp_right fun ⟨hsame, hle⟩ => ⟨hsame, ?_⟩
    refine Text.Utf8.bytes_lt_iff.mpr ?_
    by_contra hnot
    exact hne (String.le_antisymm hle (String.not_lt.mp hnot))

end HasSlots

/-! ## The catalog -/

theorem slots_foldl_shelve (s : Store) (ps : List Product) (catalog : Catalog) (menuId : String) :
    (ps.foldl s.shelve catalog).slots menuId =
      if ∃ p ∈ ps, p.id = menuId ∧ p.kind = .menu then MenuSlot.inSequence (s.menuSlots menuId)
      else catalog.slots menuId := by
  induction ps generalizing catalog with
  | nil => simp
  | cons p rest ih =>
      rw [List.foldl_cons, ih, slots_shelve]
      by_cases hrest : ∃ p ∈ rest, p.id = menuId ∧ p.kind = .menu
      · simp [hrest]
      · simp [hrest]

/-- Slots that are listed in order are presented in that order. -/
theorem HasSlots.slots_catalogOf (h : s.HasSlots accepted) (ids : List String) (menuId : String) :
    (s.catalogOf ids).slots menuId =
      if ∃ p ∈ s.productsWith ids, p.id = menuId ∧ p.kind = .menu then s.menuSlots menuId
      else [] := by
  have hsorted : MenuSlot.inSequence (s.menuSlots menuId) = s.menuSlots menuId := by
    refine List.mergeSort_of_pairwise ((h.listedAs menuId).ordered.imp fun {a b} hbefore => ?_)
    rw [decide_eq_true_eq]
    omega
  change ((s.productsWith ids).foldl s.shelve Catalog.empty).slots menuId = _
  rw [slots_foldl_shelve, hsorted]
  rfl

/-- Whatever is entered, in whatever order, the tables have the rows of the slots that were let in
and no others. Under each menu its slots are listed, which is what is gathered from the sorted
rows of the tables, and a catalog with the menu presents them in the order of the listing. A
further slot is let in exactly if it may be, and an entry that fails has changed nothing. -/
theorem menu_slots_read_back (entries : List CatalogEntry) (menuId : String) :
    ∃ accepted s, CatalogEntry.enterAll entries Store.empty = (accepted, s) ∧
      s.HasSlots accepted ∧
      MenuSlot.ListedAs (accepted.filter fun slot => slot.menuId == menuId) (s.menuSlots menuId) ∧
      s.menuSlots menuId = ((s.joined menuId).mergeSort joinedBefore).foldl gather [] ∧
      (∀ ids, (s.catalogOf ids).slots menuId =
        if ∃ p ∈ s.productsWith ids, p.id = menuId ∧ p.kind = .menu then s.menuSlots menuId
        else []) ∧
      (∀ slot, (addSlot slot s).1 = .ok () ↔ s.AdmitsSlot slot) ∧
      ∀ entry fault, (CatalogEntry.enter s entry).1 = .error fault →
        (CatalogEntry.enter s entry).2 = s := by
  have h : (CatalogEntry.enterAll entries Store.empty).2.HasSlots
      (CatalogEntry.enterAll entries Store.empty).1 := hasSlots_empty.enterAll entries
  exact ⟨_, _, rfl, h, h.listedAs menuId, menuSlots_eq_gather h.slotIds menuId,
    fun ids => h.slots_catalogOf ids menuId, fun _ => addSlot_lets_in, fun _ _ => enter_eq_error⟩

/-- Two slots of a lunch, which both come first. -/
def drinkOfLunch : MenuSlot := ⟨"drink", "lunch", "Drink", 1, ["água", "cola"]⟩

def breadOfLunch : MenuSlot := ⟨"bread", "lunch", "Bread", 1, []⟩

/-- The two slots, and an attempt at each of two others. -/
def lunchEntries : List CatalogEntry :=
  [.slot ⟨"early", "lunch", "Early", 1, []⟩,
   .product ⟨"cola", "Cola", .simple, ⟨400⟩, true, ⟨20000, 0, 0⟩, ⟨20000, 0, 0⟩⟩,
   .product ⟨"água", "Água", .simple, ⟨300⟩, true, ⟨20000, 0, 0⟩, ⟨20000, 0, 0⟩⟩,
   .product ⟨"lunch", "Lunch", .menu, ⟨1200⟩, true, ⟨20000, 0, 0⟩, ⟨20000, 0, 0⟩⟩,
   .slot drinkOfLunch,
   .slot ⟨"dessert", "lunch", "Dessert", 0, ["cola", "cola"]⟩,
   .slot breadOfLunch]

/-- Of the four slots the first has no menu yet and the third offers one product twice; the other
two are listed, and the catalog presents them in the order of the listing. -/
theorem menu_slots_of_lunch :
    ∃ s, CatalogEntry.enterAll lunchEntries Store.empty = ([drinkOfLunch, breadOfLunch], s) ∧
      MenuSlot.ListedAs [drinkOfLunch, breadOfLunch] (s.menuSlots "lunch") ∧
      (s.catalogOf ["lunch"]).slots "lunch" = s.menuSlots "lunch" := by
  obtain ⟨accepted, s, hentered, -, hlisted, -, hcatalog, -, -⟩ :=
    menu_slots_read_back lunchEntries "lunch"
  have haccepted : (CatalogEntry.enterAll lunchEntries Store.empty).1 =
      [drinkOfLunch, breadOfLunch] := by
    decide +kernel
  have hmenu : ∃ p ∈ (CatalogEntry.enterAll lunchEntries Store.empty).2.productsWith ["lunch"],
      p.id = "lunch" ∧ p.kind = .menu := by
    decide +kernel
  rw [hentered] at haccepted hmenu
  subst haccepted
  exact ⟨s, hentered, hlisted, (hcatalog ["lunch"]).trans (if_pos hmenu)⟩

end Store

end OrderLedger
