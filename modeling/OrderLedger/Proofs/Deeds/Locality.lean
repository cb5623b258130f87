import Mathlib.Data.List.Find
import OrderLedger.Proofs.Deeds.Steps

/-!
The deed of an operation stays the same while other operations do theirs, if these touch other
orders and the ids that they draw are not named. A deed reads the catalog, the orders that it
names with their lines, and the marks of these lines.
-/

namespace OrderLedger

variable {settings : Settings} {call : Call} {s t : Store} {answer : Answer}

/-! ## What deeds read -/

namespace Store

theorem catalogOf_congr
    (h : t.products = s.products ∧ t.slots = s.slots ∧ t.options = s.options)
    (ids : List String) : t.catalogOf ids = s.catalogOf ids := by
  simp only [catalogOf, productsWith, menuSlots, slotRows, h]

theorem product?_congr (h : t.products = s.products) (id : String) :
    t.product? id = s.product? id := by
  rw [product?, product?, h]

theorem hasLine_eq_true {id : String} : s.hasLine id = true ↔ ∃ l ∈ s.lines, l.id = id := by
  simp [hasLine]

end Store

namespace Deed

theorem ofMove_congr {orderId : String} (h : t.statusOf orderId = s.statusOf orderId)
    (target : Status) (deed : Deed) : ofMove t orderId target deed = ofMove s orderId target deed := by
  rw [ofMove, ofMove, h]

/-- Handing over reads which of its lines are stored, and the marks of those that are. -/
theorem ofHandingOver_congr {lineIds : List String}
    (hstored : ∀ id ∈ lineIds, t.hasLine id = s.hasLine id)
    (hmarks : ∀ id ∈ lineIds, s.hasLine id = true → t.isHandedOver id = s.isHandedOver id) :
    ofHandingOver t lineIds = ofHandingOver s lineIds := by
  have hfind : ((distinctSorted lineIds).find? fun id => !t.hasLine id) =
      (distinctSorted lineIds).find? fun id => !s.hasLine id :=
    List.find?_congr fun id hid => by rw [hstored id (mem_distinctSorted.mp hid)]
  unfold ofHandingOver
  rw [hfind]
  split
  · rfl
  · next hnone =>
      have hwaiting : t.waiting lineIds = s.waiting lineIds := by
        refine List.filter_congr fun id hid => ?_
        have hline : s.hasLine id = true := by simpa using List.find?_eq_none.mp hnone id hid
        rw [hmarks id (mem_distinctSorted.mp hid) hline]
      rw [hwaiting]

/-- Only stored lines are handed over. -/
theorem mem_ofHandingOver {lineIds : List String} {lineId : String}
    (h : lineId ∈ (ofHandingOver s lineIds).handedOver) :
    lineId ∈ lineIds ∧ ∃ l ∈ s.lines, l.id = lineId := by
  unfold ofHandingOver at h
  split at h
  · cases h
  · next hnone =>
      have hid := List.mem_of_mem_filter h
      have hline : s.hasLine lineId = true := by simpa using List.find?_eq_none.mp hnone lineId hid
      exact ⟨mem_distinctSorted.mp hid, Store.hasLine_eq_true.mp hline⟩

theorem move_ofMove {orderId id : String} {target : Status} {after : Option Status} {deed : Deed}
    (h : (ofMove s orderId target deed).move = some (id, after)) : id = orderId := by
  unfold ofMove at h
  split at h
  · cases h
  · split at h
    · cases h
      rfl
    · cases h

theorem handedOver_ofMove {orderId : String} {target : Status} {deed : Deed}
    (hdeed : deed.handedOver = []) : (ofMove s orderId target deed).handedOver = [] := by
  unfold ofMove
  split
  · rfl
  · split
    · exact hdeed
    · rfl

variable (s)

/-- Placing an order and entering stock move no order and hand nothing over. -/
theorem aside_ofPlacing (r : OrderRequest) :
    (ofPlacing s r).move = none ∧ (ofPlacing s r).handedOver = [] := by
  unfold ofPlacing
  split <;> exact ⟨rfl, rfl⟩

theorem aside_ofEntering (productId : String) (delta : Int) (reason : Reason) (actor : String) :
    (ofEntering s productId delta reason actor).move = none ∧
      (ofEntering s productId delta reason actor).handedOver = [] := by
  unfold ofEntering
  split
  · exact ⟨rfl, rfl⟩
  · split <;> exact ⟨rfl, rfl⟩

theorem move_ofHandingOver (lineIds : List String) : (ofHandingOver s lineIds).move = none := by
  unfold ofHandingOver
  split <;> rfl

theorem move_ofHandingOverOrder (orderId : String) :
    (ofHandingOverOrder s orderId).move = none := by
  unfold ofHandingOverOrder
  split
  · rfl
  · split
    · exact move_ofHandingOver s _
    · rfl

end Deed

/-! ## What deeds touch -/

namespace Operation

variable {operation : Operation}

/-- An operation moves no order but the one that it names. -/
theorem move_deed {id : String} {after : Option Status}
    (h : (operation.deed settings s).move = some (id, after)) :
    id ∈ operation.names ∧ id ∈ operation.orders s := by
  have hnamed {orderId : String} (heq : id = orderId) : id ∈ [orderId] ∧ id ∈ [orderId] :=
    ⟨List.mem_singleton.mpr heq, List.mem_singleton.mpr heq⟩
  cases operation with
  | place r => cases (Deed.aside_ofPlacing s r).1.symm.trans h
  | pay orderId tenders key =>
      simp only [deed, Deed.ofPaying] at h
      split at h
      · cases h
      · exact hnamed (Deed.move_ofMove h)
  | cancel orderId | refund orderId => exact hnamed (Deed.move_ofMove h)
  | discard orderId =>
      simp only [deed, Deed.ofDiscarding] at h
      split at h
      · cases h
        exact hnamed rfl
      · cases h
  | handOverLines lineIds => cases (Deed.move_ofHandingOver s lineIds).symm.trans h
  | handOverOrder orderId => cases (Deed.move_ofHandingOverOrder s orderId).symm.trans h
  | enter productId delta reason actor =>
      cases (Deed.aside_ofEntering s productId delta reason actor).1.symm.trans h
  | append entries | reap attemptId keptId | purge => cases h

/-- The lines that an operation hands over are stored lines of the orders that it touches. -/
theorem handedOver_deed {lineId : String}
    (h : lineId ∈ (operation.deed settings s).handedOver) :
    ∃ l ∈ s.lines, l.id = lineId ∧ l.orderId ∈ operation.orders s := by
  have hnone {lines : List String} (heq : lines = []) (hmem : lineId ∈ lines) : False := by
    rw [heq] at hmem
    cases hmem
  cases operation with
  | place r => exact (hnone (Deed.aside_ofPlacing s r).2 h).elim
  | pay orderId tenders key =>
      simp only [deed, Deed.ofPaying] at h
      split at h
      · cases h
      · exact (hnone (Deed.handedOver_ofMove rfl) h).elim
  | cancel orderId | refund orderId => exact (hnone (Deed.handedOver_ofMove rfl) h).elim
  | discard orderId =>
      simp only [deed, Deed.ofDiscarding] at h
      split at h <;> cases h
  | handOverLines lineIds =>
      obtain ⟨hnamed, l, hl, rfl⟩ := Deed.mem_ofHandingOver h
      refine ⟨l, hl, rfl, List.mem_map_of_mem (List.mem_filter.mpr ⟨hl, ?_⟩)⟩
      exact List.contains_iff_mem.mpr hnamed
  | handOverOrder orderId =>
      simp only [deed, Deed.ofHandingOverOrder] at h
      split at h
      · cases h
      · split at h
        · obtain ⟨l, hl, rfl⟩ := List.mem_map.mp (Deed.mem_ofHandingOver h).1
          obtain ⟨hl, howner⟩ := List.mem_filter.mp hl
          exact ⟨l, hl, rfl, List.mem_singleton.mpr (beq_iff_eq.mp howner)⟩
        · cases h
  | enter productId delta reason actor =>
      exact (hnone (Deed.aside_ofEntering s productId delta reason actor).2 h).elim
  | append entries | reap attemptId keptId | purge => cases h

end Operation

/-! ## What deeds leave alone -/

namespace Deed.Tells

variable {first : Operation}

/-- Other orders keep their status and their lines. -/
theorem order_kept
    (h : (first.deed settings s).Tells call first.entryIds s answer t) {id : String}
    (hother : id ∉ first.orders s) (hid : id ≠ call.ids 0) :
    t.statusOf id = s.statusOf id ∧ t.linesOf id = s.linesOf id :=
  h.kept id (fun _ hmove => hother (Operation.move_deed hmove).2) fun _ => hid

/-- A line of another order stays. -/
theorem line_kept (h : (first.deed settings s).Tells call first.entryIds s answer t)
    (hs : s.Intact) (hnew : call.IsNew s) {l : Line} (hl : l ∈ s.lines)
    (hother : l.orderId ∉ first.orders s) : l ∈ t.lines := by
  have hid : l.orderId ≠ call.ids 0 := by
    intro heq
    have hstored := hs.owners l hl
    rw [heq, hnew.isFresh.orders 0] at hstored
    cases hstored
  have hmem : l ∈ s.linesOf l.orderId := List.mem_filter.mpr ⟨hl, beq_self_eq_true _⟩
  rw [← (h.order_kept hother hid).2] at hmem
  exact List.mem_of_mem_filter hmem

/-- Whether there is a line is not changed for lines of other orders, nor for lines that are not
stored. -/
theorem hasLine_eq (h : (first.deed settings s).Tells call first.entryIds s answer t)
    (hs : s.Intact) (hnew : call.IsNew s) {lineId : String}
    (hother : ∀ l ∈ s.lines, l.id = lineId → l.orderId ∉ first.orders s)
    (hid : ∀ n, call.ids n ≠ lineId) : t.hasLine lineId = s.hasLine lineId := by
  rw [Bool.eq_iff_iff, Store.hasLine_eq_true, Store.hasLine_eq_true]
  constructor
  · rintro ⟨l, hl, rfl⟩
    rcases h.lines l hl with hl | ⟨n, hdrawn⟩
    · exact ⟨l, hl, rfl⟩
    · exact absurd hdrawn.symm (hid n)
  · rintro ⟨l, hl, rfl⟩
    exact ⟨l, h.line_kept hs hnew hl (hother l hl rfl), rfl⟩

/-- Lines of other orders are not marked. -/
theorem isHandedOver_eq (h : (first.deed settings s).Tells call first.entryIds s answer t)
    (hs : s.Intact) {l : Line} (hl : l ∈ s.lines) (hother : l.orderId ∉ first.orders s) :
    t.isHandedOver l.id = s.isHandedOver l.id := by
  have hunmarked : l.id ∉ (first.deed settings s).handedOver := by
    intro hmarked
    obtain ⟨m, hm, hid, howner⟩ := Operation.handedOver_deed hmarked
    rw [List.inj_on_of_nodup_map hs.lineIds hm hl hid] at howner
    exact hother howner
  rw [Bool.eq_iff_iff, Store.isHandedOver_iff, Store.isHandedOver_iff, h.handedOver,
    List.mem_append, or_iff_left hunmarked]

end Deed.Tells

/-! ## Independent operations -/

namespace Operation

variable {first operation : Operation}

/-- An operation touches no more orders after another one that draws no id that it names. -/
theorem orders_subset (h : (first.deed settings s).Tells call first.entryIds s answer t)
    (hunnamed : ∀ n, call.ids n ∉ operation.names) : operation.orders t ⊆ operation.orders s := by
  cases operation with
  | handOverLines lineIds =>
      intro id hid
      obtain ⟨l, hl, rfl⟩ := List.mem_map.mp hid
      obtain ⟨hl, hnamed⟩ := List.mem_filter.mp hl
      rcases h.lines l hl with hl | ⟨n, hdrawn⟩
      · exact List.mem_map_of_mem (List.mem_filter.mpr ⟨hl, hnamed⟩)
      · exact absurd (hdrawn ▸ List.contains_iff_mem.mp hnamed) (hunnamed n)
  | place _ | pay _ _ _ | cancel _ | refund _ | discard _ | handOverOrder _ | append _
  | enter _ _ _ _ | reap _ _ | purge => exact List.Subset.refl _

/-- The deed of an operation is the same after another one that touches other orders. -/
theorem deed_eq (h : (first.deed settings s).Tells call first.entryIds s answer t)
    (hs : s.Intact) (hnew : call.IsNew s)
    (hapart : ∀ id ∈ first.orders s, id ∉ operation.orders s)
    (hunnamed : ∀ n, call.ids n ∉ operation.names) :
    operation.deed settings t = operation.deed settings s := by
  have hother (id : String) (hid : id ∈ operation.orders s) : id ∉ first.orders s :=
    fun hfirst => hapart id hfirst hid
  have hkept (id : String) (horder : id ∈ operation.orders s) (hnamed : id ∈ operation.names) :
      t.statusOf id = s.statusOf id ∧ t.linesOf id = s.linesOf id :=
    h.order_kept (hother id horder) fun heq => hunnamed 0 (heq ▸ hnamed)
  have hmarks (l : Line) (hl : l ∈ s.lines) (horder : l.orderId ∈ operation.orders s) :
      t.isHandedOver l.id = s.isHandedOver l.id := h.isHandedOver_eq hs hl (hother _ horder)
  have hlines (lineId : String)
      (howner : ∀ l ∈ s.lines, l.id = lineId → l.orderId ∈ operation.orders s)
      (hid : ∀ n, call.ids n ≠ lineId) : t.hasLine lineId = s.hasLine lineId :=
    h.hasLine_eq hs hnew (fun l hl heq => hother _ (howner l hl heq)) hid
  cases operation with
  | place r =>
      simp only [deed, Deed.ofPlacing, Store.catalogOf_congr h.catalog]
  | pay orderId tenders key =>
      have hstatus := (hkept orderId (List.mem_singleton_self _) (List.mem_singleton_self _)).1
      simp only [deed, Deed.ofPaying, Deed.ofMove_congr hstatus]
  | cancel orderId | refund orderId =>
      obtain ⟨hstatus, hsame⟩ := hkept orderId (List.mem_singleton_self _) (List.mem_singleton_self _)
      simp only [deed, Deed.ofReversing, Deed.ofMove_congr hstatus, hsame]
  | discard orderId =>
      obtain ⟨hstatus, hsame⟩ := hkept orderId (List.mem_singleton_self _) (List.mem_singleton_self _)
      have hwaiting : (∀ l ∈ s.linesOf orderId, t.isHandedOver l.id = false) ↔
          ∀ l ∈ s.linesOf orderId, s.isHandedOver l.id = false := by
        refine forall₂_congr fun l hl => ?_
        obtain ⟨hl, howner⟩ := List.mem_filter.mp hl
        rw [hmarks l hl (List.mem_singleton.mpr (beq_iff_eq.mp howner))]
      simp only [deed, Deed.ofDiscarding, hstatus, hsame, hwaiting]
  | handOverLines lineIds =>
      refine Deed.ofHandingOver_congr (fun id hid => ?_) fun id hid hstored => ?_
      · refine hlines id (fun l hl heq => ?_) fun n heq => hunnamed n (heq ▸ hid)
        exact List.mem_map_of_mem (List.mem_filter.mpr ⟨hl, by simpa [heq] using hid⟩)
      · obtain ⟨l, hl, rfl⟩ := Store.hasLine_eq_true.mp hstored
        exact hmarks l hl (List.mem_map_of_mem (List.mem_filter.mpr ⟨hl, by simpa using hid⟩))
  | handOverOrder orderId =>
      obtain ⟨hstatus, hsame⟩ := hkept orderId (List.mem_singleton_self _) (List.mem_singleton_self _)
      have hown (id : String) (hid : id ∈ (s.linesOf orderId).map (·.id)) :
          ∃ l ∈ s.lines, l.id = id ∧ l.orderId = orderId := by
        obtain ⟨l, hl, rfl⟩ := List.mem_map.mp hid
        obtain ⟨hl, howner⟩ := List.mem_filter.mp hl
        exact ⟨l, hl, rfl, beq_iff_eq.mp howner⟩
      have hhand : Deed.ofHandingOver t ((s.linesOf orderId).map (·.id)) =
          Deed.ofHandingOver s ((s.linesOf orderId).map (·.id)) := by
        refine Deed.ofHandingOver_congr (fun id hid => ?_) fun id hid _ => ?_
        · obtain ⟨l, hl, rfl, howner⟩ := hown id hid
          refine hlines l.id (fun m hm heq => ?_) fun n heq => ?_
          · rw [List.inj_on_of_nodup_map hs.lineIds hm hl heq]
            exact List.mem_singleton.mpr howner
          · have hdrawn := hnew.isFresh.lines n
            rw [heq, Store.hasLine_eq_false] at hdrawn
            exact hdrawn (List.mem_map_of_mem hl)
        · obtain ⟨l, hl, rfl, howner⟩ := hown id hid
          exact hmarks l hl (List.mem_singleton.mpr howner)
      simp only [deed, Deed.ofHandingOverOrder, hstatus, hsame, hhand]
  | enter productId delta reason actor =>
      simp only [deed, Deed.ofEntering, Store.product?_congr h.catalog.1]
  | append entries | reap attemptId keptId | purge => rfl

end Operation

end OrderLedger
