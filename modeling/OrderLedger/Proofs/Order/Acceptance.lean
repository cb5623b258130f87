import OrderLedger.Proofs.Order.Selections

/-!
Which carts are accepted. The rules are told here cart line by cart line, without the checks
that enforce them; a cart is priced exactly when it keeps all of them.
-/

namespace OrderLedger.Draft

open Calculation

variable {catalog : Catalog} {stamp : Stamp} {position : Nat} {c : CartLine}
  {cart : List CartLine} {lines : List Line} {now : Time.Instant} {ids : Nat → String}
  {r : OrderRequest}

/-- The product of a cart line can be sold: a simple one without selections, and a menu with one
option selected for each of its slots. -/
inductive Orderable (catalog : Catalog) (c : CartLine) : Prop
  | simple {p : Product}
      (found : catalog.product? c.productId = some p) (active : p.isActive = true)
      (kind : p.kind = .simple)
      (plain : c.selections = [])
  | menu {p : Product}
      (found : catalog.product? c.productId = some p) (active : p.isActive = true)
      (kind : p.kind = .menu)
      (distinct : (c.selections.map (·.slotId)).Nodup)
      (slots : ∀ id, id ∈ c.selections.map (·.slotId) ↔ id ∈ (catalog.slots p.id).map (·.id))
      (filled : ∀ slot ∈ catalog.slots p.id, ∃ option, Fills catalog c.selections slot option)

/-- What a cart line adds to the total. -/
def worth (catalog : Catalog) (c : CartLine) : Int :=
  ((catalog.product? c.productId).map (·.price.cents)).getD 0 * c.quantity

/-- The rules for a cart. -/
structure Acceptable (catalog : Catalog) (r : OrderRequest) : Prop where
  request : r.IsValid
  lines : ∀ c ∈ r.lines, Orderable catalog c
  subtotals : ∀ c ∈ r.lines, Word.Fits (worth catalog c)
  totals : ∀ run, run <+: r.lines → Word.Fits (run.map (worth catalog)).sum

theorem exists_resolve {menu : Product} {selections : List Selection} :
    (∃ filled, resolve catalog menu selections = .ok filled) ↔
      Selects (catalog.slots menu.id) selections ∧
        ∀ slot ∈ catalog.slots menu.id, ∃ option, Fills catalog selections slot option := by
  have hperm := (MenuSlot.inOrder_inSequence (catalog.slots menu.id)).perm
  have hpairs (slot : MenuSlot) :
      (∃ pair : MenuSlot × Product, pair.1 = slot ∧ Fills catalog selections slot pair.2) ↔
        ∃ option, Fills catalog selections slot option :=
    ⟨fun ⟨pair, _, hfills⟩ => ⟨pair.2, hfills⟩, fun ⟨p, hfills⟩ => ⟨(slot, p), rfl, hfills⟩⟩
  simp only [resolve_eq_ok, exists_and_left, exists_forall₂, hpairs, hperm.mem_iff]

/-- With an option for each slot, the selected slots are the slots of the menu. -/
theorem Selects.slots_iff {slots : List MenuSlot} {selections : List Selection}
    (h : Selects slots selections)
    (hfilled : ∀ slot ∈ slots, ∃ option, Fills catalog selections slot option) (id : String) :
    id ∈ selections.map (·.slotId) ↔ id ∈ slots.map (·.id) := by
  constructor
  · intro hid
    obtain ⟨s, hs, rfl⟩ := List.mem_map.mp hid
    exact h.known s hs
  · intro hid
    obtain ⟨slot, hslot, rfl⟩ := List.mem_map.mp hid
    obtain ⟨_, optionId, hmem, -⟩ := hfilled slot hslot
    exact List.mem_map_of_mem hmem

theorem exists_expandLine :
    (∃ lines, expandLine catalog stamp position c = .ok lines) ↔ Orderable catalog c := by
  constructor
  · rintro ⟨lines, h⟩
    obtain ⟨p, hp, ⟨hkind, hplain, -⟩ | ⟨hkind, filled, hfilled, -⟩⟩ := expandLine_eq_ok.mp h
    · obtain ⟨hfound, hactive⟩ := sellable_eq_ok.mp hp
      exact .simple hfound hactive hkind hplain
    · obtain ⟨hfound, hactive⟩ := sellable_eq_ok.mp hp
      obtain ⟨hselects, hall⟩ := exists_resolve.mp ⟨filled, hfilled⟩
      exact .menu hfound hactive hkind hselects.distinct (hselects.slots_iff hall) hall
  · intro h
    cases h with
    | simple hfound hactive hkind hplain =>
        exact ⟨_, expandLine_eq_ok.mpr
          ⟨_, sellable_eq_ok.mpr ⟨hfound, hactive⟩, Or.inl ⟨hkind, hplain, rfl⟩⟩⟩
    | menu hfound hactive hkind hdistinct hslots hall =>
        have hknown : ∀ s ∈ c.selections, s.slotId ∈ (catalog.slots _).map (·.id) :=
          fun s hs => (hslots s.slotId).mp (List.mem_map_of_mem hs)
        obtain ⟨filled, hfilled⟩ := exists_resolve.mpr ⟨⟨hknown, hdistinct⟩, hall⟩
        exact ⟨_, expandLine_eq_ok.mpr
          ⟨_, sellable_eq_ok.mpr ⟨hfound, hactive⟩, Or.inr ⟨hkind, filled, hfilled, rfl⟩⟩⟩

theorem exists_expand :
    (∃ lines, expand catalog stamp position cart = .ok lines) ↔
      ∀ c ∈ cart, Orderable catalog c := by
  induction cart generalizing position with
  | nil => exact iff_of_true ⟨[], rfl⟩ (by simp)
  | cons c rest ih =>
      rw [List.forall_mem_cons]
      constructor
      · rintro ⟨lines, h⟩
        obtain ⟨first, more, hfirst, hmore, -⟩ := expand_cons_eq_ok.mp h
        exact ⟨exists_expandLine.mp ⟨first, hfirst⟩, ih.mp ⟨more, hmore⟩⟩
      · rintro ⟨hc, hrest⟩
        obtain ⟨first, hfirst⟩ := exists_expandLine.mpr hc
        obtain ⟨more, hmore⟩ := ih.mpr hrest
        exact ⟨_, expand_cons_eq_ok.mpr ⟨first, more, hfirst, hmore, rfl⟩⟩

/-! ## Subtotals -/

theorem subtotals_components {bundleId : String} {quantity : Int}
    {filled : List (MenuSlot × Product)} :
    Line.subtotals (components stamp bundleId quantity position filled) = [] := by
  induction filled generalizing position with
  | nil => rfl
  | cons head rest ih => exact ih

/-- A cart line has one priced line, the simple one or the bundle. -/
theorem subtotals_expandLine (h : expandLine catalog stamp position c = .ok lines) :
    Line.subtotals lines = [worth catalog c] := by
  obtain ⟨p, hp, hlines⟩ := expandLine_eq_ok.mp h
  have hworth : worth catalog c = p.price.cents * c.quantity := by
    rw [worth, (sellable_eq_ok.mp hp).1]
    rfl
  rw [hworth]
  obtain ⟨-, -, rfl⟩ | ⟨-, filled, -, rfl⟩ := hlines
  · rfl
  · rw [Line.subtotals_cons_of_pos rfl, subtotals_components]
    rfl

theorem subtotals_expand (h : expand catalog stamp position cart = .ok lines) :
    Line.subtotals lines = cart.map (worth catalog) := by
  induction cart generalizing position lines with
  | nil =>
      cases h
      rfl
  | cons c rest ih =>
      obtain ⟨first, more, hfirst, hmore, rfl⟩ := expand_cons_eq_ok.mp h
      rw [Line.subtotals_append, subtotals_expandLine hfirst, ih hmore]
      rfl

theorem exists_checkedTotal (h : expand catalog stamp position cart = .ok lines) :
    (∃ total, checkedTotal lines = .ok total) ↔
      (∀ c ∈ cart, Word.Fits (worth catalog c)) ∧
        ∀ run, run <+: cart → Word.Fits (run.map (worth catalog)).sum := by
  constructor
  · rintro ⟨total, htotal⟩
    obtain ⟨⟨hsubtotals, hruns⟩, -⟩ := checkedTotal_eq_ok.mp htotal
    rw [subtotals_expand h] at hsubtotals hruns
    exact ⟨List.forall_mem_map.mp hsubtotals, fun run hrun => hruns _ (hrun.map _)⟩
  · rintro ⟨hsubtotals, hruns⟩
    refine ⟨⟨_⟩, checkedTotal_eq_ok.mpr ⟨⟨?_, ?_⟩, rfl⟩⟩
    · rw [subtotals_expand h]
      exact List.forall_mem_map.mpr hsubtotals
    · rw [subtotals_expand h]
      intro run hrun
      obtain ⟨first, hfirst, rfl⟩ := List.prefix_map_iff.mp hrun
      exact hruns first hfirst

theorem exists_build :
    (∃ d, build catalog now ids r = .ok d) ↔ Acceptable catalog r := by
  constructor
  · rintro ⟨d, h⟩
    obtain ⟨hvalid, lines, total, hlines, htotal, -⟩ := build_eq_ok_iff.mp h
    obtain ⟨hsubtotals, htotals⟩ := (exists_checkedTotal hlines).mp ⟨total, htotal⟩
    exact ⟨hvalid, exists_expand.mp ⟨lines, hlines⟩, hsubtotals, htotals⟩
  · intro h
    obtain ⟨lines, hlines⟩ := exists_expand.mpr h.lines
    obtain ⟨total, htotal⟩ := (exists_checkedTotal hlines).mpr ⟨h.subtotals, h.totals⟩
    exact ⟨_, build_eq_ok_iff.mpr ⟨h.request, lines, total, hlines, htotal, rfl⟩⟩

/-- A cart is accepted exactly when it keeps every rule, and refused otherwise. -/
theorem carts_are_accepted_by_the_rules (catalog : Catalog) (now : Time.Instant)
    (ids : Nat → String) (r : OrderRequest) :
    ((∃ d, build catalog now ids r = .ok d) ↔ Acceptable catalog r) ∧
      ((∃ e, build catalog now ids r = .error e) ↔ ¬ Acceptable catalog r) := by
  refine ⟨exists_build, ?_⟩
  rw [← exists_build]
  cases build catalog now ids r with
  | ok d => simp
  | error e => simp

end OrderLedger.Draft
