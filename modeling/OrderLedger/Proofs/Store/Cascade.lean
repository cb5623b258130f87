import Mathlib.Data.Finset.Card
import Mathlib.Data.Fintype.Basic
import OrderLedger.Store.Orders

/-!
What falls with an order when it is deleted: the least set of lines that has the lines of the
order and every line whose parent is in it, of whichever order. The deletion finds it by going
down from the lines of the order as many times as there are lines, which is always enough. A
line may be its own parent.
-/

namespace OrderLedger.Store

variable {lines : List Line} {ids : List String} {s : Store} {orderId : String}

/-- The line with this id is deleted together with an order. -/
inductive FallsWith (s : Store) (orderId : String) : String → Prop where
  | own {l : Line} (hl : l ∈ s.lines) (horder : l.orderId = orderId) : FallsWith s orderId l.id
  | under {l : Line} {parent : String} (hl : l ∈ s.lines) (hparent : l.parentId = some parent)
      (hfalls : FallsWith s orderId parent) : FallsWith s orderId l.id

/-- One step down from the lines with the given ids. -/
def stepDown (lines : List Line) (ids : List String) : List String :=
  (lines.filter fun l => ids.contains l.id || l.parentId.any ids.contains).map (·.id)

theorem mem_stepDown {id : String} :
    id ∈ stepDown lines ids ↔ ∃ l ∈ lines, l.id = id ∧
      (l.id ∈ ids ∨ ∃ parent, l.parentId = some parent ∧ parent ∈ ids) := by
  simp only [stepDown, List.mem_map, List.mem_filter, Bool.or_eq_true, List.contains_iff_mem,
    Option.any_eq_true]
  constructor
  · rintro ⟨l, ⟨hl, hbelow⟩, rfl⟩
    exact ⟨l, hl, rfl, hbelow⟩
  · rintro ⟨l, hl, rfl, hbelow⟩
    exact ⟨l, ⟨hl, hbelow⟩, rfl⟩

theorem stepDown_subset : stepDown lines ids ⊆ lines.map (·.id) := by
  intro id hid
  obtain ⟨l, hl, rfl, -⟩ := mem_stepDown.mp hid
  exact List.mem_map_of_mem hl

theorem subset_stepDown (hids : ids ⊆ lines.map (·.id)) : ids ⊆ stepDown lines ids := by
  intro id hid
  obtain ⟨l, hl, rfl⟩ := List.mem_map.mp (hids hid)
  exact mem_stepDown.mpr ⟨l, hl, rfl, Or.inl hid⟩

/-- Every line whose parent is among the given ids is among them. -/
def IsClosed (lines : List Line) (ids : List String) : Prop :=
  ∀ l ∈ lines, ∀ parent, l.parentId = some parent → parent ∈ ids → l.id ∈ ids

/-- From a closed set of lines there is nothing to go down to. -/
theorem IsClosed.stepDown (h : IsClosed lines ids) : IsClosed lines (stepDown lines ids) := by
  have hsame : ∀ id ∈ Store.stepDown lines ids, id ∈ ids := by
    intro id hid
    obtain ⟨l, hl, rfl, hmem | ⟨parent, hparent, hmem⟩⟩ := mem_stepDown.mp hid
    · exact hmem
    · exact h l hl parent hparent hmem
  intro l hl parent hparent hmem
  exact mem_stepDown.mpr ⟨l, hl, rfl, Or.inr ⟨parent, hparent, hsame parent hmem⟩⟩

theorem IsClosed.withDescendants (h : IsClosed lines ids) (depth : Nat) :
    IsClosed lines (withDescendants lines depth ids) := by
  induction depth generalizing ids with
  | zero => exact h
  | succ depth ih => exact ih h.stepDown

/-- A step down from a set that is not closed finds a line more. -/
theorem card_stepDown (hids : ids ⊆ lines.map (·.id)) (hopen : ¬ IsClosed lines ids) :
    ids.toFinset.card + 1 ≤ (stepDown lines ids).toFinset.card := by
  simp only [IsClosed, not_forall] at hopen
  obtain ⟨l, hl, parent, hparent, hmem, hnew⟩ := hopen
  refine Finset.card_lt_card (Finset.ssubset_iff_subset_ne.mpr ⟨?_, fun heq => hnew ?_⟩)
  · intro id hid
    rw [List.mem_toFinset] at hid ⊢
    exact subset_stepDown hids hid
  · have hbelow : l.id ∈ (stepDown lines ids).toFinset :=
      List.mem_toFinset.mpr (mem_stepDown.mpr ⟨l, hl, rfl, Or.inr ⟨parent, hparent, hmem⟩⟩)
    rw [← heq] at hbelow
    exact List.mem_toFinset.mp hbelow

/-- There are no more lines to be found than there are lines. -/
theorem isClosed_withDescendants {depth : Nat} (hids : ids ⊆ lines.map (·.id))
    (hdepth : lines.length ≤ depth + ids.toFinset.card) :
    IsClosed lines (withDescendants lines depth ids) := by
  induction depth generalizing ids with
  | zero =>
      have hsubset : ids.toFinset ⊆ (lines.map (·.id)).toFinset := by
        intro id hid
        rw [List.mem_toFinset] at hid ⊢
        exact hids hid
      have hcard : (lines.map (·.id)).toFinset.card ≤ ids.toFinset.card := by
        have hlength := (lines.map (·.id)).toFinset_card_le
        rw [List.length_map] at hlength
        omega
      intro l hl parent _ _
      rw [withDescendants, ← List.mem_toFinset, Finset.eq_of_subset_of_card_le hsubset hcard,
        List.mem_toFinset]
      exact List.mem_map_of_mem hl
  | succ depth ih =>
      by_cases hclosed : IsClosed lines ids
      · exact hclosed.withDescendants (depth + 1)
      · have hmore := card_stepDown hids hclosed
        exact ih stepDown_subset (by change _ ≤ depth + (stepDown lines ids).toFinset.card; omega)

theorem subset_withDescendants {depth : Nat} (hids : ids ⊆ lines.map (·.id)) :
    ids ⊆ withDescendants lines depth ids := by
  induction depth generalizing ids with
  | zero => exact List.Subset.refl ids
  | succ depth ih => exact List.Subset.trans (subset_stepDown hids) (ih stepDown_subset)

/-- Going down from lines that fall leads to lines that fall. -/
theorem FallsWith.withDescendants {depth : Nat} (hids : ∀ id ∈ ids, s.FallsWith orderId id) :
    ∀ id ∈ withDescendants s.lines depth ids, s.FallsWith orderId id := by
  induction depth generalizing ids with
  | zero => exact hids
  | succ depth ih =>
      apply ih
      intro id hid
      obtain ⟨l, hl, rfl, hmem | ⟨parent, hparent, hmem⟩⟩ := mem_stepDown.mp hid
      · exact hids l.id hmem
      · exact .under hl hparent (hids parent hmem)

theorem own_subset : (s.linesOf orderId).map (·.id) ⊆ s.lines.map (·.id) :=
  List.map_subset _ List.filter_sublist.subset

/-- The deletion of an order finds all lines that fall with it, and no others. -/
theorem mem_lineIdsUnder {id : String} : id ∈ s.lineIdsUnder orderId ↔ s.FallsWith orderId id := by
  have hown {l : Line} (hl : l ∈ s.lines) :
      l ∈ s.linesOf orderId ↔ l.orderId = orderId := by
    simp [linesOf, hl]
  constructor
  · apply FallsWith.withDescendants
    intro id hid
    obtain ⟨l, hl, rfl⟩ := List.mem_map.mp hid
    have hmem := List.mem_of_mem_filter hl
    exact .own hmem ((hown hmem).mp hl)
  · intro hfalls
    induction hfalls with
    | own hl horder =>
        exact subset_withDescendants own_subset (List.mem_map_of_mem ((hown hl).mpr horder))
    | under hl hparent _ ih =>
        exact isClosed_withDescendants own_subset (Nat.le_add_right _ _) _ hl _ hparent ih

instance (s : Store) (orderId id : String) : Decidable (s.FallsWith orderId id) :=
  decidable_of_iff _ mem_lineIdsUnder

/-- The store without an order and all that falls with it. -/
def cascade (s : Store) (orderId : String) : Store :=
  { s with
    orders := s.orders.filter fun o => o.id ≠ orderId
    lines := s.lines.filter fun l => ¬ s.FallsWith orderId l.id
    payments := s.payments.filter fun p => p.orderId ≠ orderId
    handOvers := s.handOvers.filter fun h => ¬ s.FallsWith orderId h.lineId }

theorem withoutOrder_eq_cascade (s : Store) (orderId : String) :
    s.withoutOrder orderId = s.cascade orderId := by
  have hgone (id : String) :
      (!(s.lineIdsUnder orderId).contains id) = decide (¬ s.FallsWith orderId id) := by
    rw [Bool.eq_iff_iff, Bool.not_eq_true', ← Bool.not_eq_true, List.contains_iff_mem,
      mem_lineIdsUnder, decide_eq_true_iff]
  have hother (id : String) : (id != orderId) = decide (id ≠ orderId) := by
    rw [Bool.eq_iff_iff, bne_iff_ne, decide_eq_true_iff]
  simp only [withoutOrder, cascade, hgone, hother]

end OrderLedger.Store
