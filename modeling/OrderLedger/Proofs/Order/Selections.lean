import Mathlib.Data.List.Nodup
import Mathlib.Data.List.Pairwise
import OrderLedger.Proofs.Order.Drafts
import OrderLedger.Proofs.Sorting

/-!
How the slots of a menu are filled. They come in ascending sequence, slots of one sequence as
they were given, and each gets the option that is selected for it. Only which option goes with
which slot matters, not the order in which the selections are listed.
-/

namespace OrderLedger

namespace MenuSlot

/-- The slots in ascending sequence, and those of one sequence as they were given. -/
structure InOrder (given sorted : List MenuSlot) : Prop where
  perm : sorted.Perm given
  ascending : sorted.Pairwise fun a b => a.sequence ≤ b.sequence
  stable : ∀ n, (sorted.filter fun slot => slot.sequence = n) =
    given.filter fun slot => slot.sequence = n

theorem inOrder_inSequence (slots : List MenuSlot) : InOrder slots (inSequence slots) := by
  have htrans : ∀ a b c : MenuSlot, decide (a.sequence ≤ b.sequence) = true →
      decide (b.sequence ≤ c.sequence) = true → decide (a.sequence ≤ c.sequence) = true := by
    intro a b c hab hbc
    rw [decide_eq_true_eq] at hab hbc ⊢
    exact hab.trans hbc
  have htotal : ∀ a b : MenuSlot,
      (decide (a.sequence ≤ b.sequence) || decide (b.sequence ≤ a.sequence)) = true := by
    intro a b
    rw [Bool.or_eq_true, decide_eq_true_eq, decide_eq_true_eq]
    exact Int.le_total _ _
  have hperm := List.mergeSort_perm slots fun a b => decide (a.sequence ≤ b.sequence)
  refine ⟨hperm, ?_, ?_⟩
  · refine (List.pairwise_mergeSort htrans htotal slots).imp ?_
    intro a b hab
    exact of_decide_eq_true hab
  · intro n
    refine Sorting.filter_mergeSort htrans htotal slots fun a b ha hb => ?_
    rw [of_decide_eq_true ha, of_decide_eq_true hb, decide_eq_true_eq]

end MenuSlot

/-- A menu is stored with its slots in order. -/
theorem Catalog.slots_setSlots (catalog : Catalog) (menuId : String) (slots : List MenuSlot) :
    MenuSlot.InOrder slots ((catalog.setSlots menuId slots).slots menuId) := by
  have hstored : (catalog.setSlots menuId slots).slots menuId = MenuSlot.inSequence slots := by
    rw [Catalog.slots, Catalog.setSlots, List.lookup_cons_self, Option.getD_some]
  rw [hstored]
  exact MenuSlot.inOrder_inSequence slots

namespace Draft

open Calculation

variable {catalog : Catalog} {menu : Product} {slots : List MenuSlot}
  {selections more : List Selection} {filled : List (MenuSlot × Product)}

/-- The slots that are selected, each once, are slots of the menu. -/
structure Selects (slots : List MenuSlot) (selections : List Selection) : Prop where
  known : ∀ s ∈ selections, s.slotId ∈ slots.map (·.id)
  distinct : (selections.map (·.slotId)).Nodup

/-- The product that fills a slot is active and the option selected for the slot, which is one
of its options. -/
def Fills (catalog : Catalog) (selections : List Selection) (slot : MenuSlot) (p : Product) :
    Prop :=
  ∃ optionId, ⟨slot.id, optionId⟩ ∈ selections ∧ optionId ∈ slot.options ∧
    catalog.product? optionId = some p ∧ p.isActive = true

/-- A further selection is of a slot of the menu that is selected nowhere else. -/
theorem selects_cons {s : Selection} {seen : List String} :
    (Selects slots (s :: selections) ∧ ∀ other ∈ s :: selections, other.slotId ∉ seen) ↔
      s.slotId ∈ slots.map (·.id) ∧ s.slotId ∉ seen ∧ Selects slots selections ∧
        ∀ other ∈ selections, other.slotId ∉ s.slotId :: seen := by
  constructor
  · rintro ⟨⟨hknown, hdistinct⟩, hnew⟩
    rw [List.forall_mem_cons] at hknown hnew
    rw [List.map_cons, List.nodup_cons] at hdistinct
    refine ⟨hknown.1, hnew.1, ⟨hknown.2, hdistinct.2⟩, ?_⟩
    intro other hother hseen
    rcases List.mem_cons.mp hseen with heq | hseen
    · exact hdistinct.1 (heq ▸ List.mem_map_of_mem hother)
    · exact hnew.2 other hother hseen
  · rintro ⟨hknown, hnew, hselects, hrest⟩
    refine ⟨⟨List.forall_mem_cons.mpr ⟨hknown, hselects.known⟩, ?_⟩, ?_⟩
    · rw [List.map_cons, List.nodup_cons]
      refine ⟨?_, hselects.distinct⟩
      intro hmem
      obtain ⟨other, hother, heq⟩ := List.mem_map.mp hmem
      exact hrest other hother (heq ▸ List.mem_cons_self)
    · refine List.forall_mem_cons.mpr ⟨hnew, ?_⟩
      intro other hother hseen
      exact hrest other hother (List.mem_cons_of_mem _ hseen)

theorem checkSelections_eq_ok {menuId : String} {seen : List String} :
    checkSelections menuId slots seen selections = .ok () ↔
      Selects slots selections ∧ ∀ s ∈ selections, s.slotId ∉ seen := by
  induction selections generalizing seen with
  | nil => exact iff_of_true rfl ⟨⟨by simp, by simp⟩, by simp⟩
  | cons s rest ih =>
      have hknown : slots.any (fun slot => slot.id == s.slotId) = true ↔
          s.slotId ∈ slots.map (·.id) := by
        simp
      rw [selects_cons, checkSelections, refuse_eq_ok, refuse_eq_ok, ih, Bool.not_eq_true,
        Bool.not_eq_false', hknown, List.contains_iff_mem]

/-- Where no slot is selected twice, the option found for a slot is the one selected for it. -/
theorem chosen?_eq_some {slotId optionId : String}
    (hdistinct : (selections.map (·.slotId)).Nodup) :
    chosen? selections slotId = some optionId ↔ ⟨slotId, optionId⟩ ∈ selections := by
  rw [chosen?, Option.map_eq_some_iff]
  constructor
  · rintro ⟨s, hs, rfl⟩
    have hslot := List.find?_some hs
    rw [beq_iff_eq] at hslot
    exact hslot ▸ List.mem_of_find?_eq_some hs
  · intro hmem
    cases hfound : selections.find? fun s => s.slotId == slotId with
    | none =>
        have hnone := List.find?_eq_none.mp hfound _ hmem
        simp at hnone
    | some s =>
        have hslot := List.find?_some hfound
        rw [beq_iff_eq] at hslot
        have hsame := List.inj_on_of_nodup_map hdistinct (List.mem_of_find?_eq_some hfound) hmem
          hslot
        exact ⟨s, rfl, congrArg Selection.optionId hsame⟩

theorem fill_eq_ok {menuId : String} {slot : MenuSlot} {pair : MenuSlot × Product}
    (hdistinct : (selections.map (·.slotId)).Nodup) :
    fill catalog menuId selections slot = .ok pair ↔
      pair.1 = slot ∧ Fills catalog selections slot pair.2 := by
  obtain ⟨served, p⟩ := pair
  unfold fill Fills
  split
  · next hnone =>
      simp only [reduceCtorEq, false_iff]
      rintro ⟨-, optionId, hmem, -⟩
      rw [(chosen?_eq_some hdistinct).mpr hmem] at hnone
      cases hnone
  · next optionId hchosen =>
      rw [accept_eq_ok, map_eq_ok, MenuSlot.admits, List.contains_iff_mem]
      constructor
      · rintro ⟨hadmits, q, hq, heq⟩
        cases heq
        exact ⟨rfl, optionId, (chosen?_eq_some hdistinct).mp hchosen, hadmits,
          sellable_eq_ok.mp hq⟩
      · rintro ⟨rfl, other, hmem, hadmits, hsold⟩
        rw [(chosen?_eq_some hdistinct).mpr hmem] at hchosen
        cases hchosen
        exact ⟨hadmits, p, sellable_eq_ok.mpr hsold, rfl⟩

/-- A menu is resolved when its slots are selected as they should be and each can be filled. -/
theorem resolve_eq_ok :
    resolve catalog menu selections = .ok filled ↔ Selects (catalog.slots menu.id) selections ∧
      List.Forall₂ (fun slot pair => pair.1 = slot ∧ Fills catalog selections slot pair.2)
        (MenuSlot.inSequence (catalog.slots menu.id)) filled := by
  simp only [resolve, bind_eq_ok, mapM_eq_ok]
  constructor
  · rintro ⟨_, hcheck, hfilled⟩
    obtain ⟨hselects, -⟩ := checkSelections_eq_ok.mp hcheck
    exact ⟨hselects, hfilled.imp fun _ _ => (fill_eq_ok hselects.distinct).mp⟩
  · rintro ⟨hselects, hfilled⟩
    refine ⟨(), checkSelections_eq_ok.mpr ⟨hselects, by simp⟩, ?_⟩
    exact hfilled.imp fun _ _ => (fill_eq_ok hselects.distinct).mpr

theorem Selects.perm (h : Selects slots selections) (hperm : selections.Perm more) :
    Selects slots more :=
  ⟨fun s hs => h.known s (hperm.mem_iff.mpr hs), (hperm.map _).nodup_iff.mp h.distinct⟩

theorem Fills.perm {slot : MenuSlot} {p : Product} (h : Fills catalog selections slot p)
    (hperm : selections.Perm more) : Fills catalog more slot p := by
  obtain ⟨optionId, hmem, hsold⟩ := h
  exact ⟨optionId, hperm.mem_iff.mp hmem, hsold⟩

theorem resolve_perm (h : resolve catalog menu selections = .ok filled)
    (hperm : selections.Perm more) : resolve catalog menu more = .ok filled := by
  obtain ⟨hselects, hfilled⟩ := resolve_eq_ok.mp h
  refine resolve_eq_ok.mpr ⟨hselects.perm hperm, hfilled.imp ?_⟩
  rintro slot pair ⟨hslot, hfills⟩
  exact ⟨hslot, hfills.perm hperm⟩

end Draft

end OrderLedger
