import OrderLedger.Proofs.Stock.Accounts

/-!
Conservation of stock over whole runs. Summed up by product, the ledger says what was
entered by hand less what the pending and paid orders hold. Line by line it tells of one
sale, and of one entry more exactly for a line that was given back.
-/

namespace OrderLedger

theorem Action.orderId_of_mem_entered {settings : Settings} {call : Call} {action : Action}
    {answer : Answer} (hbatch : action.isBatch = false) :
    ∀ e ∈ action.entered settings call answer, e.provenance.orderId = none := by
  intro e he
  unfold Action.entered at he
  split at he
  · cases hbatch
  · rw [List.mem_singleton.mp he]
    rfl
  · cases he

namespace Shop

variable {settings : Settings} {call : Call} {s t : Store} {given : List String}
  {receipts : List OrderReceipt} {own : List StockEntry}

theorem DiscardedEach.accounted {now : Time.Instant} {ids : Nat → String}
    {orderIds : List String} {count : Nat} {es : List StockEntry}
    (hdiscarded : DiscardedEach settings now ids orderIds s t count es) (hs : s.Intact)
    (h : Accounted given receipts own s) : Accounted given receipts (own ++ es) t := by
  induction hdiscarded generalizing own with
  | nil => rwa [List.append_nil]
  | keep _ _ ih => exact ih hs h
  | delete hfirst _ ih =>
      have haccounted := h.giveBack (hfirst.givesBack hs)
      rw [← hfirst.entries] at haccounted
      rw [← List.append_assoc]
      exact ih (hfirst.intact hs) haccounted

/-- Whatever happens, no entry of the ledger is changed or lost. -/
theorem Effect.entries_grow {action : Action} {answer : Answer}
    (heffect : Effect settings call s action answer t) : s.entries <+: t.entries := by
  cases heffect with
  | aside marks => exact List.prefix_rfl
  | catalogued => exact List.prefix_rfl
  | placed _ hplaced =>
      obtain ⟨records, -, rfl⟩ := hplaced.after
      exact List.prefix_append _ _
  | paid _ hpaid =>
      obtain ⟨records, -, rfl⟩ := hpaid.after
      exact List.prefix_rfl
  | cancelled hreversed =>
      obtain ⟨o, -, -, rfl⟩ := hreversed
      exact List.prefix_append _ _
  | refunded hreversed =>
      obtain ⟨o, -, -, rfl⟩ := hreversed
      exact List.prefix_append _ _
  | discarded hdiscarded =>
      rw [hdiscarded.after]
      exact List.prefix_append _ _
  | reaped hdiscarded =>
      rw [hdiscarded.entries_eq]
      exact List.prefix_append _ _
  | entered => exact List.prefix_append _ _
  | purged => exact List.prefix_rfl

theorem placed?_report (o : Outcome PaymentReceipt) :
    Answer.placed? ((report o).map .paid) = none := by
  cases hreport : report o <;> rfl

/-- An effect appends to the ledger, and the accounts of all lines stay right. -/
theorem Effect.accounted {action : Action} {answer : Answer}
    (heffect : Effect settings call s action answer t) (hs : s.Intact)
    (hfresh : call.ids 0 ∉ given) (h : Accounted given receipts own s) :
    ∃ es, t.entries = s.entries ++ es ∧
      Accounted (given ++ [call.ids 0]) (receipts ++ answer.placed?.toList)
        (own ++ if action.isBatch then [] else es) t := by
  have hgiven := h.weaken [call.ids 0]
  cases heffect with
  | aside marks hplaced =>
      refine ⟨[], (List.append_nil _).symm, Accounted.unplaced ?_ hplaced⟩
      rw [ite_self, List.append_nil]
      exact hgiven.idle rfl (fun _ hid => hid) fun _ => rfl
  | catalogued =>
      refine ⟨[], (List.append_nil _).symm, Accounted.unplaced ?_ rfl⟩
      rw [ite_self, List.append_nil]
      exact hgiven.idle rfl (fun _ hid => hid) fun _ => rfl
  | placed hsound hplaced =>
      obtain ⟨records, -, ht⟩ := hplaced.after
      refine ⟨_, by rw [ht], ?_⟩
      exact h.place hs hfresh hsound hplaced
  | paid _ hpaid =>
      have hreason := hpaid.reasonBack?_eq
      have hstored := hpaid.hasOrder_eq
      obtain ⟨records, -, ht⟩ := hpaid.after
      refine ⟨[], by rw [ht, List.append_nil], Accounted.unplaced ?_ (placed?_report _)⟩
      rw [ite_self, List.append_nil]
      refine hgiven.idle (by rw [ht]) ?_ hreason
      intro id hid
      rwa [← hstored]
  | cancelled hreversed =>
      have hback := hreversed.givesBack rfl
      exact ⟨_, hback.entries, Accounted.unplaced (hgiven.giveBack hback) rfl⟩
  | refunded hreversed =>
      have hback := hreversed.givesBack rfl
      exact ⟨_, hback.entries, Accounted.unplaced (hgiven.giveBack hback) rfl⟩
  | discarded hdiscarded =>
      have hback := hdiscarded.givesBack hs
      exact ⟨_, hback.entries, Accounted.unplaced (hgiven.giveBack hback) rfl⟩
  | reaped hdiscarded =>
      exact ⟨_, hdiscarded.entries_eq, Accounted.unplaced (hdiscarded.accounted hs hgiven) rfl⟩
  | entered hplaced =>
      refine ⟨_, rfl, Accounted.unplaced ?_ hplaced⟩
      refine hgiven.keep rfl (fun _ hid => hid) (fun _ => rfl) ?_
      intro e he
      split at he
      · cases he
      · next hbatch => exact Action.orderId_of_mem_entered (by simpa using hbatch) e he
  | purged =>
      refine ⟨[], (List.append_nil _).symm, Accounted.unplaced ?_ rfl⟩
      rw [ite_self, List.append_nil]
      exact hgiven.idle rfl (fun _ hid => hid) fun _ => rfl

end Shop

def Turn.placed (turn : Turn) : List OrderReceipt := turn.answer.placed?.toList

namespace Run

variable {settings : Settings} {turns : List Turn} {shop : Shop}

theorem balance_eq (hrun : Run settings turns shop) (productId : String) :
    shop.store.balance productId =
      (StockEntry.deltasOf (turns.flatMap Turn.entered) productId).sum := by
  induction hrun with
  | opened => rfl
  | act call action hrun ih =>
      rw [(hrun.effect call action).balance_eq hrun.intact, ih, List.flatMap_append,
        StockEntry.deltasOf_append, List.sum_append, List.flatMap_singleton, Turn.entered,
        hrun.settings_eq]
      rfl

theorem accounted (hrun : Run settings turns shop) (hids : FreshIds turns) :
    Accounted (turns.map fun turn => turn.call.ids 0) (turns.flatMap Turn.placed)
      (turns.flatMap Turn.ownEntries) shop.store := by
  induction hrun with
  | opened => exact .opened
  | @act turns shop call action hrun ih =>
      rw [FreshIds, List.pairwise_append] at hids
      obtain ⟨hearlier, -, hlast⟩ := hids
      have hfresh : call.ids 0 ∉ turns.map fun turn => turn.call.ids 0 := by
        intro hmem
        obtain ⟨turn, hturn, hid⟩ := List.mem_map.mp hmem
        exact hlast turn hturn _ (List.mem_singleton.mpr rfl) 0 0 hid
      obtain ⟨es, hentries, haccounted⟩ :=
        (hrun.effect call action).accounted hrun.intact hfresh (ih hearlier)
      have hown : Turn.ownEntries ⟨call, action, shop⟩ = if action.isBatch then [] else es := by
        change (if action.isBatch then []
          else List.drop _ (shop.act call action).2.store.entries) = _
        rw [hentries, List.drop_left]
      rw [List.map_append, List.flatMap_append, List.flatMap_append, List.flatMap_singleton,
        List.flatMap_singleton, hown]
      exact haccounted

theorem entries_grow (hrun : Run settings turns shop) :
    ∀ turn ∈ turns, turn.before.store.entries <+: turn.after.store.entries := by
  intro turn hturn
  obtain ⟨earlier, hbefore⟩ := hrun.before hturn
  exact (hbefore.effect turn.call turn.action).entries_grow

/-- Over any run the ledger only grows; by product it comes to what was entered by hand
less what the pending and paid orders took; and of what the callers have not entered
themselves, every line of an order that was placed has its account: a sale if it moves
stock, and one entry more exactly if its order was cancelled, refunded or deleted. -/
theorem stock_is_conserved (hrun : Run settings turns shop) (hids : FreshIds turns) :
    (∀ turn ∈ turns, turn.before.store.entries <+: turn.after.store.entries) ∧
    (∀ productId, (StockEntry.deltasOf shop.store.entries productId).sum =
      (StockEntry.deltasOf (turns.flatMap Turn.entered) productId).sum -
        Line.taken shop.store.heldLines productId) ∧
    (∀ turn ∈ turns, ∀ receipt ∈ turn.placed, ∀ l ∈ receipt.lines,
      (StockEntry.about (turns.flatMap Turn.ownEntries) receipt.order.id l.id).map
          StockEntry.told =
        l.account (Status.reasonBack? (shop.store.statusOf receipt.order.id))) := by
  refine ⟨hrun.entries_grow, ?_, ?_⟩
  · intro productId
    rw [← hrun.balance_eq productId, Store.balance]
    ring
  · intro turn hturn receipt hreceipt
    exact (hrun.accounted hids).told receipt (List.mem_flatMap.mpr ⟨turn, hturn, hreceipt⟩)

/-- Soup is counted, ordered and not wanted any more. -/
def cancelledOrder : List (Call × Action) :=
  [(Call.on 20000 'a',
      .addProduct ⟨"soup", "Soup", .simple, ⟨850⟩, true, ⟨20000, 0, 0⟩, ⟨20000, 0, 0⟩⟩),
   (Call.on 20000 'b', .operate (.enter "soup" 10 .openingBalance "kitchen")),
   (Call.on 20000 'c',
      .operate (.place ⟨some "c-7", none, .pos, some "till-1", [⟨"soup", 2, []⟩]⟩)),
   (Call.on 20000 'd', .operate (.cancel "c"))]

theorem stock_of_cancelledOrder :
    FreshIds (play Settings.standard cancelledOrder).1 ∧
    (StockEntry.deltasOf (play Settings.standard cancelledOrder).2.store.entries "soup").sum =
      10 := by
  have hids : FreshIds (play Settings.standard cancelledOrder).1 := by
    apply freshIds_play
    simp only [cancelledOrder, List.pairwise_cons, List.forall_mem_cons, List.not_mem_nil,
      false_implies, implies_true, List.Pairwise.nil, and_true]
    refine ⟨⟨?_, ?_, ?_⟩, ⟨?_, ?_⟩, ?_⟩ <;> exact Call.ids_on_ne (by decide) _ _
  have hentered : (StockEntry.deltasOf
      ((play Settings.standard cancelledOrder).1.flatMap Turn.entered) "soup").sum = 10 := by
    decide +kernel
  have htaken : Line.taken (play Settings.standard cancelledOrder).2.store.heldLines "soup" =
      0 := by
    decide +kernel
  refine ⟨hids, ?_⟩
  rw [(stock_is_conserved (run_play _ _) hids).2.1 "soup", hentered, htaken, sub_zero]

end Run

end OrderLedger
