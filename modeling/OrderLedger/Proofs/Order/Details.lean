import OrderLedger.Proofs.Order.Expansion
import OrderLedger.Proofs.Order.Kept
import OrderLedger.Proofs.Payment.Rows
import OrderLedger.Proofs.Run.Values
import OrderLedger.Proofs.Shop.Answers
import OrderLedger.Proofs.Stock.Conservation
import OrderLedger.Shop.Details

/-!
What can be looked up of a placed order. As long as it is stored, its details show the order and
the lines of the receipt, and of the lines those that were handed over. The receipt itself adds
up: its total is that of its lines, and its components stand below their bundles.
-/

namespace OrderLedger

open Calculation

/-! ## Receipts -/

/-- A component costs nothing, and the bundle that it belongs to stands before it, in the same
order and as often. -/
def Line.Attached (lines : List Line) : Prop :=
  ∀ l ∈ lines, l.type = .component → l.unitPrice = ⟨0⟩ ∧
    ∃ bundle, [bundle, l].Sublist lines ∧ bundle.type = .bundle ∧ l.parentId = some bundle.id ∧
      bundle.orderId = l.orderId ∧ bundle.quantity = l.quantity

/-- What a receipt says holds of it alone, whatever becomes of the order. -/
structure OrderReceipt.AddsUp (receipt : OrderReceipt) : Prop where
  total : receipt.order.total.cents = (Line.subtotals receipt.lines).sum
  contact : receipt.order.customerId.isSome ↔ receipt.order.contactEmail.isNone
  components : Line.Attached receipt.lines

theorem Line.Attached.flatten {blocks : List (List Line)} (h : ∀ ls ∈ blocks, Attached ls) :
    Attached blocks.flatten := by
  intro l hl htype
  obtain ⟨block, hblock, hl⟩ := List.mem_flatten.mp hl
  obtain ⟨hfree, bundle, hbefore, hbundle⟩ := h block hblock l hl htype
  exact ⟨hfree, bundle, hbefore.trans (List.sublist_flatten_of_mem hblock), hbundle⟩

namespace Draft

variable {catalog : Catalog} {orderId : String} {now : Time.Instant} {c : CartLine}
  {lines : List Line} {ids : Nat → String} {r : OrderRequest} {d : Draft}

theorem Expanded.attached (h : Expanded catalog orderId now c lines) : Line.Attached lines := by
  intro l hl htype
  cases h with
  | simple _ _ _ hline =>
      rw [List.mem_singleton.mp hl, hline] at htype
      cases htype
  | @menu p bundle slots parts _ _ _ hline _ hfilled =>
      rcases List.mem_cons.mp hl with rfl | hl
      · rw [hline] at htype
        cases htype
      · obtain ⟨slot, option, -, hpart⟩ := exists_forall₂.mp ⟨slots, hfilled.flip⟩ l hl
        have hbefore : [bundle, l].Sublist (bundle :: parts) :=
          (List.singleton_sublist.mpr hl).cons_cons bundle
        rw [hpart] at hbefore ⊢
        rw [hline] at hbefore ⊢
        exact ⟨rfl, _, hbefore, rfl, rfl, rfl, rfl⟩

theorem addsUp_build (h : build catalog now ids r = .ok d) : d.receipt.AddsUp := by
  obtain ⟨hvalid, lines, total, hlines, htotal, rfl⟩ := build_eq_ok_iff.mp h
  obtain ⟨blocks, hblocks, rfl⟩ := exists_blocks hlines
  have hattached : ∀ block ∈ blocks, Line.Attached block := by
    intro block hblock
    obtain ⟨c, hexpanded⟩ := exists_forall₂.mp ⟨r.lines, hblocks.flip⟩ block hblock
    exact hexpanded.attached
  exact ⟨(checkedTotal_eq_ok.mp htotal).2, hvalid.contact.isSome_trimmed?,
    Line.Attached.flatten hattached⟩

end Draft

/-! ## Stored orders -/

/-- The order of a receipt is stored as the receipt has it, perhaps in another status by now, and
with the lines of the receipt. -/
structure Store.Carries (s : Store) (receipt : OrderReceipt) : Prop where
  order : ∃ o, s.order? receipt.order.id = some o ∧
    o = { receipt.order with status := o.status, updatedAt := o.updatedAt }
  lines : s.linesOf receipt.order.id = receipt.lines

theorem Store.Carries.of_keeps {s t : Store} {receipt : OrderReceipt} (h : s.Carries receipt)
    (hkeeps : s.Keeps t receipt.order.id) : t.Carries receipt := by
  obtain ⟨o, hfound, ho⟩ := h.order
  obtain ⟨status, updatedAt, horder⟩ := hkeeps.order
  rw [hfound, Option.map_some, ho] at horder
  exact ⟨⟨_, horder, rfl⟩, hkeeps.lines.trans h.lines⟩

namespace Shop

variable {settings : Settings} {call : Call} {s t : Store} {action : Action} {answer : Answer}

theorem Placed.carries {catalog : Catalog} {r : OrderRequest} {d : Draft}
    (hplaced : Placed settings call d s t)
    (hsound : Draft.Sound catalog call.pricedAt call.ids r d) (hs : s.Intact) :
    t.Carries d.receipt := by
  constructor
  · exact ⟨d.order, hplaced.order?_eq.trans (if_pos rfl), rfl⟩
  · exact (hplaced.linesOf_eq hsound hs d.order.id).trans (if_pos rfl)

theorem Effect.placed?_eq_some {receipt : OrderReceipt}
    (heffect : Effect settings call s action answer t) (h : answer.placed? = some receipt) :
    ∃ r, action = .operate (.place r) := by
  cases heffect with
  | aside marks hplaced =>
      rw [hplaced] at h
      cases h
  | @placed r => exact ⟨r, rfl⟩
  | paid =>
      rw [placed?_report] at h
      cases h
  | entered hplaced =>
      rw [hplaced] at h
      cases h
  | _ => cases h

/-- Only payments that a call may take are recorded. -/
theorem Effect.payments_nonneg (heffect : Effect settings call s action answer t)
    (hs : ∀ p ∈ s.payments, 0 ≤ p.amount.cents) : ∀ p ∈ t.payments, 0 ≤ p.amount.cents := by
  cases heffect with
  | aside | catalogued | entered | purged => exact hs
  | placed _ hplaced =>
      obtain ⟨records, -, rfl⟩ := hplaced.after
      exact hs
  | paid hchecked hpaid =>
      obtain ⟨records, -, rfl⟩ := hpaid.after
      intro p hp
      rcases List.mem_append.mp hp with hp | hp
      · exact hs p hp
      · exact paymentsBy_nonneg hchecked.1 p hp
  | cancelled hreversed | refunded hreversed =>
      obtain ⟨o, -, -, rfl⟩ := hreversed
      exact hs
  | discarded hdiscarded =>
      rw [hdiscarded.after]
      exact fun p hp => hs p (List.mem_of_mem_filter hp)
  | reaped hdiscarded => exact fun p hp => hs p (hdiscarded.payments_subset hp)

/-- Whatever is stored of an order is shown, with the exact sum of its payments if that fits. -/
theorem details_of_nonneg {id : String} {o : Order} (hfound : s.order? id = some o)
    (hnonneg : ∀ p ∈ s.payments, 0 ≤ p.amount.cents) :
    details s id =
      if ((s.rowsOf id).map (·.amount.cents)).sum ≤ Word.greatest then
        .ok ⟨o, s.linesOf id, s.paymentsOf id, s.handedOverLines id,
          ⟨((s.rowsOf id).map (·.amount.cents)).sum⟩⟩
      else .error (.overflow .add) := by
  have hperm : (s.paymentsOf id).Perm (s.rowsOf id) := Store.chronological_perm _ _
  have hpayments : ∀ p ∈ s.paymentsOf id, 0 ≤ p.amount.cents := fun p hp =>
    hnonneg p (List.mem_of_mem_filter (hperm.mem_iff.mp hp))
  have htotal := totalOf_of_nonneg hpayments
  rw [(hperm.map _).sum_eq] at htotal
  by_cases hsum : ((s.rowsOf id).map (·.amount.cents)).sum ≤ Word.greatest
  · rw [if_pos hsum] at htotal ⊢
    simp only [details, hfound, htotal]
  · rw [if_neg hsum] at htotal ⊢
    simp only [details, hfound, htotal]

theorem exists_details {id : String} {o : Order} (hfound : s.order? id = some o)
    (hnonneg : ∀ p ∈ s.payments, 0 ≤ p.amount.cents)
    (hsum : ((s.rowsOf id).map (·.amount.cents)).sum ≤ Word.greatest) :
    ∃ shown, details s id = .ok shown ∧ shown.order = o ∧ shown.lines = s.linesOf id ∧
      shown.handedOver = s.handedOverLines id := by
  rw [details_of_nonneg hfound hnonneg, if_pos hsum]
  exact ⟨_, rfl, rfl, rfl, rfl⟩

/-- A turn that has placed an order has stored what it was priced to. -/
theorem exists_draft {turn : Turn} {receipt : OrderReceipt} (h : receipt ∈ turn.placed) :
    ∃ r d, priceDraft turn.before.store turn.call r = .ok d ∧ receipt = d.receipt ∧
      Placed turn.before.settings turn.call d turn.before.store turn.after.store := by
  obtain ⟨call, action, before⟩ := turn
  rw [Turn.placed, Option.mem_toList] at h
  obtain ⟨r, rfl⟩ := (act_effect call action before).2.placed?_eq_some h
  change Answer.placed? ((before.place call r).1.map .placed) = some receipt at h
  rcases hplace : before.place call r with ⟨fault | o, after⟩
  · rw [hplace] at h
    cases h
  · rw [hplace] at h
    rcases place_eq_ok hplace with ⟨d, hprice, rfl, hplaced⟩ | ⟨now, hlost, -⟩
    · cases h
      have hafter : (before.perform call (.place r)).2.store = after.store := by
        change (before.place call r).2.store = after.store
        rw [hplace]
      exact ⟨r, d, hprice, rfl, hafter ▸ hplaced⟩
    · rw [Answer.placed?_replayed hlost.replayed] at h
      cases h

end Shop

namespace Run

variable {settings : Settings} {turns : List Turn} {shop : Shop} {turn : Turn}
  {receipt : OrderReceipt}

theorem payments_nonneg (hrun : Run settings turns shop) :
    ∀ p ∈ shop.store.payments, 0 ≤ p.amount.cents :=
  hrun.invariant (by simp [Store.empty]) fun _ _ _ _ _ hs heffect => heffect.payments_nonneg hs

/-- An order has the first id of the call that places it. -/
theorem id_placed (h : receipt ∈ turn.placed) : receipt.order.id = turn.call.ids 0 := by
  obtain ⟨r, d, hprice, rfl, -⟩ := Shop.exists_draft h
  exact (Draft.build_eq_ok (mapError_eq_ok.mp hprice)).id

/-- A placed order is stored as its receipt has it until it is deleted, and then it is never
stored again. -/
theorem carries_or_gone (hrun : Run settings turns shop) (hids : FreshIds turns) :
    ∀ turn ∈ turns, ∀ receipt ∈ turn.placed,
      shop.store.Carries receipt ∨ shop.store.hasOrder receipt.order.id = false := by
  induction hrun with
  | opened =>
      intro turn hturn
      cases hturn
  | @act turns shop call action hrun ih =>
      rw [FreshIds, List.pairwise_append] at hids
      obtain ⟨hearlier, -, hlast⟩ := hids
      intro turn hturn receipt hplaced
      rcases List.mem_append.mp hturn with hturn | hturn
      · have hid : receipt.order.id ≠ call.ids 0 := by
          rw [id_placed hplaced]
          exact hlast turn hturn _ (List.mem_singleton.mpr rfl) 0 0
        rcases (hrun.effect call action).keeps hrun.intact (Or.inr hid) with hkeeps | ⟨-, hgone⟩
        · apply (ih hearlier turn hturn receipt hplaced).imp
          · intro hcarries
            exact hcarries.of_keeps hkeeps
          · intro hgone
            rw [hkeeps.hasOrder_eq, hgone]
        · exact Or.inr hgone
      · rw [List.mem_singleton] at hturn
        subst hturn
        obtain ⟨r, d, hprice, rfl, hstored⟩ := Shop.exists_draft hplaced
        have hsound := Draft.build_eq_ok (mapError_eq_ok.mp hprice)
        exact Or.inl (hstored.carries hsound hrun.intact)

/-- The receipt of a placed order adds up; and whatever happens afterwards, as long as the order
is stored and its payments can be added up, its details show the order of the receipt, but for
its status and the time of its last change, the lines of the receipt, and of these lines those
that were handed over. -/
theorem receipts_stay_true (hrun : Run settings turns shop) (hids : FreshIds turns)
    (hturn : turn ∈ turns) (hplaced : receipt ∈ turn.placed) :
    receipt.AddsUp ∧
    (shop.store.hasOrder receipt.order.id = true →
      ((shop.store.rowsOf receipt.order.id).map (·.amount.cents)).sum ≤ Word.greatest →
      ∃ shown, Shop.details shop.store receipt.order.id = .ok shown ∧
        shown.order = { receipt.order with
          status := shown.order.status, updatedAt := shown.order.updatedAt } ∧
        shown.lines = receipt.lines ∧
        shown.handedOver = (receipt.lines.map (·.id)).filter fun id =>
          shop.store.handOvers.any fun h => h.lineId == id) := by
  constructor
  · obtain ⟨r, d, hprice, rfl, -⟩ := Shop.exists_draft hplaced
    exact Draft.addsUp_build (mapError_eq_ok.mp hprice)
  · intro hstored hsum
    rcases hrun.carries_or_gone hids turn hturn receipt hplaced with hcarries | hgone
    · obtain ⟨o, hfound, ho⟩ := hcarries.order
      obtain ⟨shown, hshown, rfl, hlines, hhandedOver⟩ :=
        Shop.exists_details hfound hrun.payments_nonneg hsum
      refine ⟨shown, hshown, ho, hlines.trans hcarries.lines, ?_⟩
      rw [hhandedOver, Store.handedOverLines, hcarries.lines]
      rfl
    · rw [hgone] at hstored
      cases hstored

/-- A lunch and a soup are ordered and paid, the soup of the lunch is served, and soup is sold
no more. -/
def servedLunch : List (Call × Action) :=
  let noon : Time.Instant := ⟨20000, 43200, 0⟩
  [(Call.on 20000 'a', .addProduct ⟨"soup", "Soup", .simple, ⟨850⟩, true, noon, noon⟩),
   (Call.on 20000 'b', .addProduct ⟨"lunch", "Lunch", .menu, ⟨1200⟩, true, noon, noon⟩),
   (Call.on 20000 'c', .addSlot ⟨"main", "lunch", "Main", 1, ["soup"]⟩),
   (Call.on 20000 'd', .operate (.place
      ⟨none, some " a@b.ch ", .pos, none, [⟨"lunch", 2, [⟨"main", "soup"⟩]⟩, ⟨"soup", 1, []⟩]⟩)),
   (Call.on 20000 'e', .operate (.pay "d" [⟨.cash, ⟨3250⟩⟩] none)),
   (Call.on 20000 'f', .operate (.handOverLines ["d.."])),
   (Call.on 20000 'g', .setActive "soup" false)]

theorem details_of_servedLunch :
    FreshIds (play Settings.standard servedLunch).1 ∧
    ∃ receipt ∈ (play Settings.standard servedLunch).1.flatMap Turn.placed,
      receipt.lines.map (·.id) = ["d.", "d..", "d..."] ∧ receipt.AddsUp ∧
      ∃ shown, Shop.details (play Settings.standard servedLunch).2.store "d" = .ok shown ∧
        shown.lines = receipt.lines ∧ shown.handedOver = ["d.."] := by
  have hids : FreshIds (play Settings.standard servedLunch).1 :=
    freshIds_on _ (show _ = ['a', 'b', 'c', 'd', 'e', 'f', 'g'].map (Call.on 20000) from rfl)
      (by decide)
  have hreceipts : ((play Settings.standard servedLunch).1.flatMap Turn.placed).map
      (fun receipt => (receipt.order.id, receipt.lines.map (·.id))) =
      [("d", ["d.", "d..", "d..."])] := by
    decide +kernel
  obtain ⟨receipt, honly, heq⟩ := List.map_eq_singleton_iff.mp hreceipts
  obtain ⟨hid, hlineIds⟩ := Prod.mk.inj heq
  have hmem : receipt ∈ (play Settings.standard servedLunch).1.flatMap Turn.placed := by
    rw [honly]
    exact List.mem_singleton.mpr rfl
  obtain ⟨turn, hturn, hplaced⟩ := List.mem_flatMap.mp hmem
  obtain ⟨haddsUp, hdetails⟩ := receipts_stay_true (run_play _ _) hids hturn hplaced
  rw [hid, hlineIds] at hdetails
  obtain ⟨shown, hshown, -, hlines, hhandedOver⟩ := hdetails (by decide +kernel) (by decide +kernel)
  refine ⟨hids, receipt, hmem, hlineIds, haddsUp, shown, hshown, hlines, ?_⟩
  rw [hhandedOver]
  decide +kernel

end Run

end OrderLedger
