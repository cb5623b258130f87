import Mathlib.Data.List.Nodup
import Mathlib.Data.List.Perm.Basic
import OrderLedger.Proofs.Store.Catalog

/-!
How the slots of a menu are listed. Each of its slots stands beside each of its options, or beside
none; these rows are sorted by sequence, by id and by option, and then rows that follow one another
are put together where they are of one slot. No two slots have one id, so all rows of a slot
follow one another, whatever its sequence and whoever else offers its options.
-/

namespace OrderLedger

/-- A slot with the given options. -/
def SlotRow.withOptions (row : SlotRow) (productIds : List String) : MenuSlot :=
  ⟨row.id, row.menuId, row.name, row.sequence, productIds⟩

namespace Store

variable {row : SlotRow} {rows : List SlotRow} {rest : List (SlotRow × Option String)}
  {option : Option String} {productIds : List String} {slots : List MenuSlot}
  {options : SlotRow → List String}

/-- A slot beside each of its options, or beside none. -/
def beside (row : SlotRow) : List String → List (SlotRow × Option String)
  | [] => [(row, none)]
  | productIds => productIds.map fun productId => (row, some productId)

/-- The options of a slot in the order of their insertion. -/
def optionsOf (s : Store) (row : SlotRow) : List String :=
  (s.options.filter fun o => o.slotId == row.id).map (·.productId)

/-- The rows of the slots of a menu, each beside its options, in the order of insertion. -/
def joined (s : Store) (menuId : String) : List (SlotRow × Option String) :=
  (s.slots.filter fun row => row.menuId == menuId).flatMap fun row => beside row (s.optionsOf row)

/-- Whether an option comes at or before another one. No option comes first. -/
def optionBefore : Option String → Option String → Bool
  | none, _ => true
  | some _, none => false
  | some a, some b => decide (a ≤ b)

/-- By sequence, then by id, and then by option. -/
def joinedBefore (a b : SlotRow × Option String) : Bool :=
  if a.1.sequence = b.1.sequence ∧ a.1.id = b.1.id then optionBefore a.2 b.2
  else slotBefore a.1 b.1

/-- Puts a row to the last slot if it is of that slot, and starts a further slot if not. -/
def gather (slots : List MenuSlot) (row : SlotRow × Option String) : List MenuSlot :=
  match slots.getLast? with
  | some slot =>
      if slot.id = row.1.id then
        slots.dropLast ++ [{ slot with options := slot.options ++ row.2.toList }]
      else slots ++ [row.1.withOptions row.2.toList]
  | none => [row.1.withOptions row.2.toList]

/-! ## Putting rows together -/

theorem mergeRows_start (h : ∀ slot ∈ (mergeRows rest).head?, slot.id ≠ row.id) :
    mergeRows ((row, option) :: rest) = row.withOptions option.toList :: mergeRows rest := by
  rw [mergeRows]
  split
  · next slot slots hmerged =>
      have hother : slot.id ≠ row.id := h slot (by rw [hmerged]; rfl)
      rw [if_neg (by simpa using hother), hmerged]
      rfl
  · next hmerged =>
      rw [hmerged]
      rfl

theorem mergeRows_extend (h : mergeRows rest = row.withOptions productIds :: slots) :
    mergeRows ((row, option) :: rest) =
      row.withOptions (option.toList ++ productIds) :: slots := by
  rw [mergeRows, h]
  exact if_pos (beq_self_eq_true row.id)

/-- The rows of one slot become one slot, if those that follow begin another. -/
theorem mergeRows_beside (h : ∀ slot ∈ (mergeRows rest).head?, slot.id ≠ row.id) :
    mergeRows (beside row productIds ++ rest) = row.withOptions productIds :: mergeRows rest := by
  have hsome (first : String) (more : List String) :
      mergeRows ((first :: more).map (fun id => (row, some id)) ++ rest) =
        row.withOptions (first :: more) :: mergeRows rest := by
    induction more generalizing first with
    | nil => exact mergeRows_start h
    | cons second more ih => exact mergeRows_extend (ih second)
  cases productIds with
  | nil => exact mergeRows_start h
  | cons first more => exact hsome first more

theorem mergeRows_flatMap (hids : (rows.map (·.id)).Nodup) :
    mergeRows (rows.flatMap fun row => beside row (options row)) =
      rows.map fun row => row.withOptions (options row) := by
  induction rows with
  | nil => rfl
  | cons row rest ih =>
      rw [List.map_cons, List.nodup_cons] at hids
      rw [List.flatMap_cons, mergeRows_beside, ih hids.2, List.map_cons]
      rw [ih hids.2]
      intro slot hslot heq
      obtain ⟨other, hother, rfl⟩ := List.mem_map.mp (List.mem_of_mem_head? hslot)
      exact hids.1 (List.mem_map.mpr ⟨other, hother, heq⟩)

theorem gather_start (h : ∀ slot ∈ slots.getLast?, slot.id ≠ row.id) :
    gather slots (row, option) = slots ++ [row.withOptions option.toList] := by
  rw [gather]
  split
  · next slot hlast => exact if_neg (h slot hlast)
  · next hlast =>
      rw [List.getLast?_eq_none_iff.mp hlast]
      rfl

theorem gather_extend :
    gather (slots ++ [row.withOptions productIds]) (row, option) =
      slots ++ [row.withOptions (productIds ++ option.toList)] := by
  rw [gather, List.getLast?_concat]
  change (if row.id = row.id then _ else _) = _
  rw [if_pos rfl, List.dropLast_concat]
  rfl

/-- The rows of one slot are gathered as one slot, if those before end another. -/
theorem foldl_gather_beside (h : ∀ slot ∈ slots.getLast?, slot.id ≠ row.id) :
    (beside row productIds).foldl gather slots = slots ++ [row.withOptions productIds] := by
  have hmore (earlier more : List String) :
      (more.map fun id => (row, some id)).foldl gather (slots ++ [row.withOptions earlier]) =
        slots ++ [row.withOptions (earlier ++ more)] := by
    induction more generalizing earlier with
    | nil => rw [List.append_nil]; rfl
    | cons first more ih =>
        rw [List.map_cons, List.foldl_cons, gather_extend, ih, List.append_assoc]
        rfl
  cases productIds with
  | nil => exact gather_start h
  | cons first more =>
      rw [beside, List.map_cons, List.foldl_cons, gather_start h]
      exact hmore [first] more
      exact List.cons_ne_nil first more

theorem foldl_gather_flatMap (hids : (rows.map (·.id)).Nodup)
    (h : ∀ slot ∈ slots.getLast?, slot.id ∉ rows.map (·.id)) :
    (rows.flatMap fun row => beside row (options row)).foldl gather slots =
      slots ++ rows.map fun row => row.withOptions (options row) := by
  induction rows generalizing slots with
  | nil => rw [List.flatMap_nil, List.foldl_nil, List.map_nil, List.append_nil]
  | cons row rest ih =>
      rw [List.map_cons, List.nodup_cons] at hids
      have hown : ∀ slot ∈ slots.getLast?, slot.id ≠ row.id := fun slot hslot heq =>
        h slot hslot (heq ▸ List.mem_cons_self)
      have hnext : ∀ slot ∈ (slots ++ [row.withOptions (options row)]).getLast?,
          slot.id ∉ rest.map (·.id) := by
        rw [List.getLast?_concat]
        rintro slot ⟨⟩
        exact hids.1
      rw [List.flatMap_cons, List.foldl_append, foldl_gather_beside hown, ih hids.2 hnext,
        List.map_cons, ← List.append_cons]

/-! ## The order of the rows -/

theorem slotBefore_iff {a b : SlotRow} :
    slotBefore a b = true ↔ a.sequence < b.sequence ∨ a.sequence = b.sequence ∧ a.id ≤ b.id := by
  simp [slotBefore]

theorem slotBefore_trans (a b c : SlotRow) (hab : slotBefore a b = true)
    (hbc : slotBefore b c = true) : slotBefore a c = true := by
  rw [slotBefore_iff] at hab hbc ⊢
  rcases hab with hab | ⟨hab, hids⟩
  · left
    omega
  · rcases hbc with hbc | ⟨hbc, hids'⟩
    · left
      omega
    · exact Or.inr ⟨hab.trans hbc, String.le_trans hids hids'⟩

theorem slotBefore_total (a b : SlotRow) : (slotBefore a b || slotBefore b a) = true := by
  rw [Bool.or_eq_true, slotBefore_iff, slotBefore_iff]
  rcases Int.lt_trichotomy a.sequence b.sequence with hless | hsame | hmore
  · exact Or.inl (Or.inl hless)
  · exact (String.le_total a.id b.id).imp (fun h => Or.inr ⟨hsame, h⟩)
      fun h => Or.inr ⟨hsame.symm, h⟩
  · exact Or.inr (Or.inl hmore)

/-- Only slots of one place and one id stand before each other. -/
theorem slotBefore_antisymm {a b : SlotRow} (hab : slotBefore a b = true)
    (hba : slotBefore b a = true) : a.sequence = b.sequence ∧ a.id = b.id := by
  rw [slotBefore_iff] at hab hba
  rcases hab with hab | ⟨hsame, hids⟩
  · omega
  · rcases hba with hba | ⟨-, hids'⟩
    · omega
    · exact ⟨hsame, String.le_antisymm hids hids'⟩

theorem optionBefore_trans {a b c : Option String} (hab : optionBefore a b = true)
    (hbc : optionBefore b c = true) : optionBefore a c = true := by
  cases a with
  | none => rfl
  | some a =>
      cases b with
      | none => cases hab
      | some b =>
          cases c with
          | none => cases hbc
          | some c =>
              simp only [optionBefore, decide_eq_true_eq] at hab hbc ⊢
              exact String.le_trans hab hbc

theorem optionBefore_total (a b : Option String) :
    optionBefore a b = true ∨ optionBefore b a = true := by
  cases a with
  | none => exact Or.inl rfl
  | some a =>
      cases b with
      | none => exact Or.inr rfl
      | some b => simpa [optionBefore] using String.le_total a b

theorem optionBefore_antisymm {a b : Option String} (hab : optionBefore a b = true)
    (hba : optionBefore b a = true) : a = b := by
  cases a with
  | none =>
      cases b with
      | none => rfl
      | some b => cases hba
  | some a =>
      cases b with
      | none => cases hab
      | some b =>
          simp only [optionBefore, decide_eq_true_eq] at hab hba
          rw [String.le_antisymm hab hba]

section Joined

variable {a b : SlotRow × Option String}

theorem joinedBefore_same (h : a.1.sequence = b.1.sequence ∧ a.1.id = b.1.id) :
    joinedBefore a b = optionBefore a.2 b.2 := if_pos h

theorem joinedBefore_other (h : ¬ (a.1.sequence = b.1.sequence ∧ a.1.id = b.1.id)) :
    joinedBefore a b = slotBefore a.1 b.1 := if_neg h

theorem slotBefore_of_joinedBefore (h : joinedBefore a b = true) : slotBefore a.1 b.1 = true := by
  by_cases hsame : a.1.sequence = b.1.sequence ∧ a.1.id = b.1.id
  · rw [slotBefore_iff, hsame.2]
    exact Or.inr ⟨hsame.1, String.le_refl _⟩
  · rwa [joinedBefore_other hsame] at h

theorem joinedBefore_trans (a b c : SlotRow × Option String) (hab : joinedBefore a b = true)
    (hbc : joinedBefore b c = true) : joinedBefore a c = true := by
  have hslots := slotBefore_trans _ _ _ (slotBefore_of_joinedBefore hab)
    (slotBefore_of_joinedBefore hbc)
  by_cases hac : a.1.sequence = c.1.sequence ∧ a.1.id = c.1.id
  · -- Between two rows of one slot there are only rows of that slot.
    have hca : slotBefore c.1 a.1 = true := by
      rw [slotBefore_iff, hac.2]
      exact Or.inr ⟨hac.1.symm, String.le_refl _⟩
    have hsame := slotBefore_antisymm (slotBefore_of_joinedBefore hab)
      (slotBefore_trans _ _ _ (slotBefore_of_joinedBefore hbc) hca)
    have hsame' : b.1.sequence = c.1.sequence ∧ b.1.id = c.1.id :=
      ⟨hsame.1.symm.trans hac.1, hsame.2.symm.trans hac.2⟩
    rw [joinedBefore_same hac]
    rw [joinedBefore_same hsame] at hab
    rw [joinedBefore_same hsame'] at hbc
    exact optionBefore_trans hab hbc
  · rwa [joinedBefore_other hac]

theorem joinedBefore_total (a b : SlotRow × Option String) :
    (joinedBefore a b || joinedBefore b a) = true := by
  rw [Bool.or_eq_true]
  by_cases hsame : a.1.sequence = b.1.sequence ∧ a.1.id = b.1.id
  · rw [joinedBefore_same hsame, joinedBefore_same ⟨hsame.1.symm, hsame.2.symm⟩]
    exact optionBefore_total _ _
  · have hslots := slotBefore_total a.1 b.1
    rw [joinedBefore_other hsame, joinedBefore_other fun h => hsame ⟨h.1.symm, h.2.symm⟩]
    rwa [Bool.or_eq_true] at hslots

end Joined

/-! ## The listing -/

variable {s : Store} {menuId : String}

/-- The slots of a menu in the order of the listing. -/
def slotsInOrder (s : Store) (menuId : String) : List SlotRow :=
  (s.slots.filter fun row => row.menuId == menuId).mergeSort slotBefore

/-- The options of a slot in ascending order. -/
def optionsInOrder (s : Store) (row : SlotRow) : List String :=
  (s.optionsOf row).mergeSort fun a b => decide (a ≤ b)

theorem slotRows_eq (s : Store) (menuId : String) :
    s.slotRows menuId =
      (s.slotsInOrder menuId).flatMap fun row => beside row (s.optionsInOrder row) := rfl

theorem beside_perm {more : List String} (h : productIds.Perm more) :
    (beside row productIds).Perm (beside row more) := by
  cases productIds with
  | nil => rw [List.nil_perm.mp h]
  | cons first rest =>
      cases more with
      | nil => exact absurd (List.perm_nil.mp h) (List.cons_ne_nil _ _)
      | cons other others => exact h.map fun productId => (row, some productId)

theorem slotsInOrder_perm (s : Store) (menuId : String) :
    (s.slotsInOrder menuId).Perm (s.slots.filter fun row => row.menuId == menuId) :=
  List.mergeSort_perm _ _

theorem optionsInOrder_perm (s : Store) (row : SlotRow) :
    (s.optionsInOrder row).Perm (s.optionsOf row) := List.mergeSort_perm _ _

theorem slotRows_perm (s : Store) (menuId : String) :
    (s.slotRows menuId).Perm (s.joined menuId) := by
  rw [slotRows_eq]
  exact (s.slotsInOrder_perm menuId).flatMap fun row _ => beside_perm (s.optionsInOrder_perm row)

theorem slotsInOrder_pairwise (s : Store) (menuId : String) :
    (s.slotsInOrder menuId).Pairwise fun a b => slotBefore a b = true :=
  List.pairwise_mergeSort slotBefore_trans slotBefore_total _

theorem optionsInOrder_pairwise (s : Store) (row : SlotRow) :
    (s.optionsInOrder row).Pairwise fun a b => a ≤ b := by
  refine (List.pairwise_mergeSort (fun a b c hab hbc => ?_) (fun a b => ?_) _).imp of_decide_eq_true
  · rw [decide_eq_true_eq] at hab hbc ⊢
    exact String.le_trans hab hbc
  · rw [Bool.or_eq_true, decide_eq_true_eq, decide_eq_true_eq]
    exact String.le_total a b

theorem ids_slotsInOrder (hids : (s.slots.map (·.id)).Nodup) :
    ((s.slotsInOrder menuId).map (·.id)).Nodup :=
  (((s.slotsInOrder_perm menuId).map _).nodup_iff).mpr
    (hids.sublist (List.filter_sublist.map _))

theorem fst_of_mem_beside {x : SlotRow × Option String} (hx : x ∈ beside row productIds) :
    x.1 = row := by
  unfold beside at hx
  split at hx
  · rw [List.mem_singleton.mp hx]
  · obtain ⟨_, -, rfl⟩ := List.mem_map.mp hx
    rfl

theorem slotRows_pairwise (hids : (s.slots.map (·.id)).Nodup) :
    (s.slotRows menuId).Pairwise fun a b => joinedBefore a b = true := by
  rw [slotRows_eq, List.pairwise_flatMap]
  constructor
  · intro row _
    have hoptions := s.optionsInOrder_pairwise row
    unfold beside
    split
    · exact List.pairwise_singleton _ _
    · refine List.pairwise_map.mpr (hoptions.imp fun {first second} hbefore => ?_)
      have hsame := joinedBefore_same (a := (row, some first)) (b := (row, some second)) ⟨rfl, rfl⟩
      exact hsame.trans (decide_eq_true hbefore)
  · refine ((s.slotsInOrder_pairwise menuId).and
      (List.pairwise_map.mp (ids_slotsInOrder hids))).imp ?_
    rintro a b ⟨hbefore, hother⟩ x hx y hy
    rw [← fst_of_mem_beside hx, ← fst_of_mem_beside hy] at hbefore hother
    rwa [joinedBefore_other fun hsame => hother hsame.2]

/-- The rows of the listing are the joined rows in order: nothing else is in that order. -/
theorem slotRows_eq_sorted (hids : (s.slots.map (·.id)).Nodup) (menuId : String) :
    s.slotRows menuId = (s.joined menuId).mergeSort joinedBefore := by
  have hmem {x : SlotRow × Option String} (hx : x ∈ s.slotRows menuId) : x.1 ∈ s.slots := by
    obtain ⟨row, hrow, hx⟩ := List.mem_flatMap.mp ((s.slotRows_perm menuId).mem_iff.mp hx)
    exact fst_of_mem_beside hx ▸ List.mem_of_mem_filter hrow
  have hsorted := (s.joined menuId).mergeSort_perm joinedBefore
  refine List.Perm.eq_of_pairwise ?_ (slotRows_pairwise hids)
    (List.pairwise_mergeSort joinedBefore_trans joinedBefore_total _)
    ((s.slotRows_perm menuId).trans hsorted.symm)
  intro a b ha hb hab hba
  have hb := (s.slotRows_perm menuId).mem_iff.mpr (hsorted.mem_iff.mp hb)
  have hsame := slotBefore_antisymm (slotBefore_of_joinedBefore hab)
    (slotBefore_of_joinedBefore hba)
  rw [joinedBefore_same hsame] at hab
  rw [joinedBefore_same ⟨hsame.1.symm, hsame.2.symm⟩] at hba
  have hrow := List.inj_on_of_nodup_map hids (hmem ha) (hmem hb) hsame.2
  exact Prod.ext hrow (optionBefore_antisymm hab hba)

/-- What is listed of a menu: its slots in order, each with its options in order. -/
theorem menuSlots_eq_map (hids : (s.slots.map (·.id)).Nodup) (menuId : String) :
    s.menuSlots menuId =
      (s.slotsInOrder menuId).map fun row => row.withOptions (s.optionsInOrder row) := by
  rw [menuSlots, slotRows_eq]
  exact mergeRows_flatMap (ids_slotsInOrder hids)

/-- Gathering the sorted rows one by one gives the listing. -/
theorem menuSlots_eq_gather (hids : (s.slots.map (·.id)).Nodup) (menuId : String) :
    s.menuSlots menuId = ((s.joined menuId).mergeSort joinedBefore).foldl gather [] := by
  rw [← slotRows_eq_sorted hids, menuSlots_eq_map hids, slotRows_eq, foldl_gather_flatMap
    (ids_slotsInOrder hids) (fun _ hslot => by cases hslot), List.nil_append]

end Store

end OrderLedger
