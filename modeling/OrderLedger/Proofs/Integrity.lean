import OrderLedger.Proofs.Run.Basic
import OrderLedger.Proofs.Store.Cascade
import OrderLedger.Proofs.Store.Statuses

/-!
The integrity of the store: ids and keys are distinct, and what a row refers to is
stored. Since the parent of a line is a line of the same order, deleting an order deletes
its own lines and no others.
-/

namespace OrderLedger

namespace Store

structure Intact (s : Store) : Prop where
  orderIds : (s.orders.map (·.id)).Nodup
  lineIds : (s.lines.map (·.id)).Nodup
  owners : ∀ l ∈ s.lines, s.hasOrder l.orderId = true
  parents : ∀ l ∈ s.lines, ∀ parent, l.parentId = some parent →
    ∃ m ∈ s.lines, m.id = parent ∧ m.orderId = l.orderId
  payers : ∀ p ∈ s.payments, s.hasOrder p.orderId = true
  keys : s.KeysDistinct

theorem intact_empty : Store.empty.Intact :=
  ⟨.nil, .nil, by simp [empty], by simp [empty], by simp [empty], .nil⟩

variable {s : Store} {id : String}

/-- What falls with an order are its own lines, since a parent is a line of the same order. -/
theorem Intact.mem_lineIdsUnder (hs : s.Intact) {l : Line} (hl : l ∈ s.lines) :
    l.id ∈ s.lineIdsUnder id ↔ l.orderId = id := by
  have hown {lineId : String} (hfalls : s.FallsWith id lineId) :
      ∀ m ∈ s.lines, m.id = lineId → m.orderId = id := by
    induction hfalls with
    | own hm horder =>
        intro n hn heq
        rwa [List.inj_on_of_nodup_map hs.lineIds hn hm heq]
    | under hm hparent _ ih =>
        intro n hn heq
        rw [List.inj_on_of_nodup_map hs.lineIds hn hm heq]
        obtain ⟨owner, howner, hid, horder⟩ := hs.parents _ hm _ hparent
        rw [← horder]
        exact ih owner howner hid
  rw [Store.mem_lineIdsUnder]
  exact ⟨fun hfalls => hown hfalls l hl rfl, .own hl⟩

/-- Deleting an order deletes exactly its own lines. -/
theorem Intact.lines_withoutOrder (hs : s.Intact) (id : String) :
    (s.withoutOrder id).lines = s.lines.filter fun l => l.orderId != id := by
  apply List.filter_congr
  intro l hl
  have hmem : l.id ∈ s.lineIdsUnder id ↔ l.orderId = id := hs.mem_lineIdsUnder hl
  by_cases horder : l.orderId = id
  · simp [horder, hmem.mpr horder]
  · have hnot : l.id ∉ s.lineIdsUnder id := fun h => horder (hmem.mp h)
    simp [horder, hnot]

/-- The other orders keep their lines. -/
theorem Intact.linesOf_withoutOrder (hs : s.Intact) {orderId other : String}
    (hother : other ≠ orderId) : (s.withoutOrder orderId).linesOf other = s.linesOf other := by
  rw [linesOf, hs.lines_withoutOrder, List.filter_filter]
  refine List.filter_congr fun l _ => ?_
  by_cases horder : l.orderId = other
  · simp [horder, hother]
  · simp [horder]

theorem hasOrder_iff_mem : s.hasOrder id = true ↔ id ∈ s.orders.map (·.id) := by
  rw [hasOrder_eq_true, List.mem_map]

theorem ids_withStatus (s : Store) (source target : Status) (now : Time.Instant) :
    (s.withStatus id source target now).orders.map (·.id) = s.orders.map (·.id) := by
  unfold withStatus
  rw [List.map_map]
  apply List.map_congr_left
  intro o _
  rw [Function.comp_apply]
  split <;> rfl

/-- Where the ids of the orders and the lines stay, payments and keys are left to check. -/
theorem Intact.of_same_orders {t : Store} (hs : s.Intact)
    (horders : t.orders.map (·.id) = s.orders.map (·.id)) (hlines : t.lines = s.lines)
    (hpayers : ∀ p ∈ t.payments, s.hasOrder p.orderId = true) (hkeys : t.KeysDistinct) :
    t.Intact := by
  have hstored {id : String} (h : s.hasOrder id = true) : t.hasOrder id = true := by
    rw [hasOrder_iff_mem] at h ⊢
    rwa [horders]
  refine ⟨horders ▸ hs.orderIds, hlines ▸ hs.lineIds, ?_, hlines ▸ hs.parents, ?_, hkeys⟩
  · intro l hl
    exact hstored (hs.owners l (hlines ▸ hl))
  · intro p hp
    exact hstored (hpayers p hp)

theorem Intact.withoutOrder (hs : s.Intact) (id : String) : (s.withoutOrder id).Intact := by
  have hlines := hs.lines_withoutOrder id
  have hstored {other : String} (h : s.hasOrder other = true) (hne : other ≠ id) :
      (s.withoutOrder id).hasOrder other = true := by
    obtain ⟨o, ho, rfl⟩ := hasOrder_eq_true.mp h
    exact hasOrder_eq_true.mpr ⟨o, List.mem_filter.mpr ⟨ho, by simpa using hne⟩, rfl⟩
  refine ⟨?_, ?_, ?_, ?_, ?_, hs.keys⟩
  · exact hs.orderIds.sublist (List.filter_sublist.map _)
  · rw [hlines]
    exact hs.lineIds.sublist (List.filter_sublist.map _)
  · rw [hlines]
    intro l hl
    obtain ⟨hl, hne⟩ := List.mem_filter.mp hl
    exact hstored (hs.owners l hl) (by simpa using hne)
  · rw [hlines]
    intro l hl parent hparent
    obtain ⟨hl, hne⟩ := List.mem_filter.mp hl
    obtain ⟨m, hm, hid, horder⟩ := hs.parents l hl parent hparent
    exact ⟨m, List.mem_filter.mpr ⟨hm, by rwa [horder]⟩, hid, horder⟩
  · intro p hp
    obtain ⟨hp, hne⟩ := List.mem_filter.mp hp
    exact hstored (hs.payers p hp) (by simpa using hne)

end Store

namespace Shop

variable {settings : Settings} {call : Call} {s t : Store}

theorem Claims.keysDistinct {scope : String} {key : Option String} {payload : List UInt8}
    {now : Time.Instant} {records : List Remembered}
    (h : Claims settings scope key payload now s records) (hs : s.KeysDistinct) :
    (records.map fun r => (r.scope, r.key)).Nodup := by
  cases key with
  | none =>
      obtain rfl : records = s.remembered := h
      exact hs
  | some key =>
      obtain ⟨expiresAt, -, -, rfl⟩ := h
      exact hs.withRemembered _

section Placed

variable {catalog : Catalog} {r : OrderRequest} {d : Draft}

theorem Placed.lines_eq (hplaced : Placed settings call d s t) : t.lines = s.lines ++ d.lines := by
  obtain ⟨records, -, rfl⟩ := hplaced.after
  rfl

/-- No line from before belongs to the new order. -/
theorem Placed.owner_ne (hplaced : Placed settings call d s t) (hs : s.Intact) :
    ∀ l ∈ s.lines, l.orderId ≠ d.order.id := by
  intro l hl heq
  have hstored := hs.owners l hl
  rw [heq, hplaced.newOrder] at hstored
  cases hstored

theorem Placed.lineIds (hplaced : Placed settings call d s t) (hs : s.Intact) :
    (d.lines.map (·.id)).Nodup := by
  have hall := hplaced.newLines hs.lineIds
  rw [List.map_append, List.nodup_append] at hall
  exact hall.2.1

/-- The new order has the lines of the draft, and every other order has what it had. -/
theorem Placed.linesOf_eq (hsound : Draft.Sound catalog call.pricedAt call.ids r d)
    (hplaced : Placed settings call d s t) (hs : s.Intact) (id : String) :
    t.linesOf id = if id = d.order.id then d.lines else s.linesOf id := by
  rw [Store.linesOf, hplaced.lines_eq, List.filter_append]
  split
  · next hid =>
      have hnone : (s.lines.filter fun l => l.orderId == d.order.id) = [] := by
        rw [List.filter_eq_nil_iff]
        intro l hl
        simpa using hplaced.owner_ne hs l hl
      have hall : (d.lines.filter fun l => l.orderId == d.order.id) = d.lines := by
        rw [List.filter_eq_self]
        intro l hl
        simpa using hsound.owner l hl
      rw [hid, hnone, hall, List.nil_append]
  · next hid =>
      have hnone : (d.lines.filter fun l => l.orderId == id) = [] := by
        rw [List.filter_eq_nil_iff]
        intro l hl
        simpa [hsound.owner l hl] using Ne.symm hid
      rw [hnone, List.append_nil]
      rfl

end Placed

theorem Placed.intact {catalog : Catalog} {r : OrderRequest} {d : Draft}
    (hsound : Draft.Sound catalog call.pricedAt call.ids r d)
    (hplaced : Placed settings call d s t) (hs : s.Intact) : t.Intact := by
  obtain ⟨records, hclaims, rfl⟩ := hplaced.after
  have howner := hsound.owner
  have hstored {id : String} (h : s.hasOrder id = true) :
      ∃ o ∈ s.orders ++ [d.order], o.id = id := by
    obtain ⟨o, ho, hid⟩ := Store.hasOrder_eq_true.mp h
    exact ⟨o, List.mem_append_left _ ho, hid⟩
  refine ⟨?_, hplaced.newLines hs.lineIds, ?_, ?_, ?_, hclaims.keysDistinct hs.keys⟩
  · rw [List.map_append, List.nodup_append]
    refine ⟨hs.orderIds, by simp, ?_⟩
    intro a ha b hb heq
    rw [List.map_cons, List.map_nil, List.mem_singleton] at hb
    obtain ⟨o, ho, rfl⟩ := List.mem_map.mp ha
    exact Store.hasOrder_eq_false.mp hplaced.newOrder o ho (heq.trans hb)
  · intro l hl
    rw [Store.hasOrder_eq_true]
    rcases List.mem_append.mp hl with hl | hl
    · exact hstored (hs.owners l hl)
    · exact ⟨d.order, List.mem_append_right _ List.mem_cons_self, (howner l hl).symm⟩
  · intro l hl parent hparent
    rcases List.mem_append.mp hl with hl | hl
    · obtain ⟨m, hm, hid, horder⟩ := hs.parents l hl parent hparent
      exact ⟨m, List.mem_append_left _ hm, hid, horder⟩
    · obtain ⟨m, hm, hid⟩ := hsound.parents l hl parent hparent
      exact ⟨m, List.mem_append_right _ hm, hid, by rw [howner m hm, howner l hl]⟩
  · intro p hp
    exact Store.hasOrder_eq_true.mpr (hstored (hs.payers p hp))

theorem Paid.intact {orderId : String} {tenders : List Tender} {key : Option String}
    {receipt : PaymentReceipt} (hpaid : Paid settings call orderId tenders key receipt s t)
    (hs : s.Intact) : t.Intact := by
  obtain ⟨records, hclaims, rfl⟩ := hpaid.after
  refine hs.of_same_orders (Store.ids_withStatus ..) rfl ?_ (hclaims.keysDistinct hs.keys)
  intro p hp
  rcases List.mem_append.mp hp with hp | hp
  · exact hs.payers p hp
  · obtain ⟨o, hfound, -⟩ := hpaid.order
    obtain ⟨⟨tender, n⟩, -, rfl⟩ := List.mem_map.mp hp
    exact Store.hasOrder_eq_true.mpr ⟨o, Store.order?_eq_some hfound⟩

theorem Reversed.intact {orderId : String} {target : Status} {reason : Reason}
    (hreversed : Reversed settings call orderId target reason s t) (hs : s.Intact) :
    t.Intact := by
  obtain ⟨o, -, -, rfl⟩ := hreversed
  exact hs.of_same_orders (Store.ids_withStatus ..) rfl hs.payers hs.keys

theorem Discarded.intact {now : Time.Instant} {ids : Nat → String} {orderId : String}
    {es : List StockEntry} (hdiscarded : Discarded settings now ids orderId s t es)
    (hs : s.Intact) : t.Intact := by
  rw [hdiscarded.after]
  have hwithout := hs.withoutOrder orderId
  exact ⟨hwithout.orderIds, hwithout.lineIds, hwithout.owners, hwithout.parents,
    hwithout.payers, hwithout.keys⟩

theorem DiscardedEach.intact {now : Time.Instant} {ids : Nat → String} {orderIds : List String}
    {count : Nat} {es : List StockEntry}
    (hdiscarded : DiscardedEach settings now ids orderIds s t count es) (hs : s.Intact) :
    t.Intact := by
  refine hdiscarded.lift (R := fun s t => s.Intact → t.Intact) ?_ ?_ ?_ hs
  · intro s hs
    exact hs
  · intro s t u hfirst hrest hs
    exact hrest (hfirst hs)
  · intro ids orderId s t es hdeleted hs
    exact hdeleted.intact hs

theorem Effect.intact {action : Action} {answer : Answer}
    (heffect : Effect settings call s action answer t) (hs : s.Intact) : t.Intact := by
  cases heffect with
  | aside marks => exact hs.of_same_orders rfl rfl hs.payers hs.keys
  | catalogued => exact hs.of_same_orders rfl rfl hs.payers hs.keys
  | placed hsound hplaced => exact hplaced.intact hsound hs
  | paid _ hpaid => exact hpaid.intact hs
  | cancelled hreversed => exact hreversed.intact hs
  | refunded hreversed => exact hreversed.intact hs
  | discarded hdiscarded => exact hdiscarded.intact hs
  | reaped hdiscarded => exact hdiscarded.intact hs
  | entered => exact hs.of_same_orders rfl rfl hs.payers hs.keys
  | purged =>
      exact hs.of_same_orders rfl rfl hs.payers (hs.keys.sublist (List.filter_sublist.map _))

end Shop

/-- The store is intact after every run. -/
theorem Run.intact {settings : Settings} {turns : List Turn} {shop : Shop}
    (hrun : Run settings turns shop) : shop.store.Intact :=
  hrun.invariant Store.intact_empty fun _ _ _ _ _ hs heffect => heffect.intact hs

end OrderLedger
