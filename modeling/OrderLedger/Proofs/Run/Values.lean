import OrderLedger.Proofs.Receipts
import OrderLedger.Proofs.Run.Basic

/-!
The values that a run keeps. Amounts come in as integers of 64 bits and readings of the
clock as moments of the calendar, and nothing that a run stores goes beyond them.
-/

namespace OrderLedger

open Calculation

/-- The clock shows moments of the calendar throughout the call. -/
structure Call.IsTimed (call : Call) : Prop where
  lookedUpAt : call.lookedUpAt.IsValid
  pricedAt : call.pricedAt.IsValid
  now : call.now.IsValid

/-- The amounts that come in with an action fit in 64 bits. -/
def Action.Fits : Action → Prop
  | .addProduct p => Word.Fits p.price.cents
  | .operate (.pay _ tenders _) => ∀ t ∈ tenders, Word.Fits t.amount.cents
  | _ => True

/-- Calls and actions as callers can make them: no value is out of its range. -/
def Ranged (turns : List Turn) : Prop :=
  ∀ turn ∈ turns, turn.call.IsTimed ∧ turn.action.Fits

/-- The prices and the orders of a store have values in their ranges. -/
structure Store.IsSound (s : Store) : Prop where
  prices : ∀ p ∈ s.products, Word.Fits p.price.cents
  orders : ∀ o ∈ s.orders, o.IsSound

namespace Store

variable {s : Store}

theorem isSound_empty : Store.empty.IsSound := ⟨by simp [empty], by simp [empty]⟩

theorem IsSound.withStatus (hs : s.IsSound) (id : String) (source target : Status)
    {now : Time.Instant} (hnow : now.IsValid) :
    ∀ o ∈ (s.withStatus id source target now).orders, o.IsSound := by
  intro o ho
  obtain ⟨old, hold, rfl⟩ := List.mem_map.mp ho
  have hsound := hs.orders old hold
  split
  · exact ⟨hsound.total, hsound.createdAt, hnow⟩
  · exact hsound

end Store

namespace Shop

variable {settings : Settings} {call : Call} {s t : Store}

theorem DiscardedEach.products_eq {now : Time.Instant} {ids : Nat → String}
    {orderIds : List String} {count : Nat} {es : List StockEntry}
    (hdiscarded : DiscardedEach settings now ids orderIds s t count es) :
    t.products = s.products := by
  apply hdiscarded.lift (R := fun s t => t.products = s.products)
  · intro s
    rfl
  · intro s t u hfirst hrest
    exact hrest.trans hfirst
  · intro ids orderId s t es hdeleted
    rw [hdeleted.after]
    rfl

theorem DiscardedEach.orders_subset {now : Time.Instant} {ids : Nat → String}
    {orderIds : List String} {count : Nat} {es : List StockEntry}
    (hdiscarded : DiscardedEach settings now ids orderIds s t count es) : t.orders ⊆ s.orders := by
  apply hdiscarded.subset (·.orders)
  intro ids orderId s t es hdeleted
  rw [hdeleted.after]
  exact List.filter_sublist.subset

theorem DiscardedEach.lines_subset {now : Time.Instant} {ids : Nat → String}
    {orderIds : List String} {count : Nat} {es : List StockEntry}
    (hdiscarded : DiscardedEach settings now ids orderIds s t count es) : t.lines ⊆ s.lines := by
  apply hdiscarded.subset (·.lines)
  intro ids orderId s t es hdeleted
  rw [hdeleted.after]
  exact List.filter_sublist.subset

theorem DiscardedEach.payments_subset {now : Time.Instant} {ids : Nat → String}
    {orderIds : List String} {count : Nat} {es : List StockEntry}
    (hdiscarded : DiscardedEach settings now ids orderIds s t count es) :
    t.payments ⊆ s.payments := by
  apply hdiscarded.subset (·.payments)
  intro ids orderId s t es hdeleted
  rw [hdeleted.after]
  exact List.filter_sublist.subset

/-- Prices come from the prices before and from the action. -/
theorem Effect.price_cases {action : Action} {answer : Answer}
    (heffect : Effect settings call s action answer t) {p : Product} (hp : p ∈ t.products) :
    (∃ q ∈ s.products, p.price = q.price) ∨ action = .addProduct p := by
  have hsame (h : p ∈ s.products) : (∃ q ∈ s.products, p.price = q.price) ∨
      action = .addProduct p := Or.inl ⟨p, h, rfl⟩
  cases heffect with
  | aside | entered | purged => exact hsame hp
  | catalogued _ hprices => exact hprices p hp
  | placed _ hplaced =>
      obtain ⟨records, -, rfl⟩ := hplaced.after
      exact hsame hp
  | paid _ hpaid =>
      obtain ⟨records, -, rfl⟩ := hpaid.after
      exact hsame hp
  | cancelled hreversed | refunded hreversed =>
      obtain ⟨o, -, -, rfl⟩ := hreversed
      exact hsame hp
  | discarded hdiscarded =>
      rw [hdiscarded.after] at hp
      exact hsame hp
  | reaped hdiscarded =>
      rw [hdiscarded.products_eq] at hp
      exact hsame hp

theorem Effect.prices {action : Action} {answer : Answer}
    (heffect : Effect settings call s action answer t) (haction : action.Fits)
    (hs : ∀ p ∈ s.products, Word.Fits p.price.cents) :
    ∀ p ∈ t.products, Word.Fits p.price.cents := by
  intro p hp
  rcases heffect.price_cases hp with ⟨q, hq, hprice⟩ | rfl
  · rw [hprice]
    exact hs q hq
  · exact haction

/-- A product that comes into the catalog has no negative price. -/
theorem act_prices_nonneg (call : Call) (action : Action) (shop : Shop)
    (hs : ∀ p ∈ shop.store.products, 0 ≤ p.price.cents) :
    ∀ p ∈ (shop.act call action).2.store.products, 0 ≤ p.price.cents := by
  intro p hp
  rcases (act_effect call action shop).2.price_cases hp with ⟨q, hq, hprice⟩ | rfl
  · rw [hprice]
    exact hs q hq
  · change p ∈ (Store.addProduct p shop.store).2.products at hp
    rcases hadd : Store.addProduct p shop.store with ⟨f | u, t⟩
    · rw [hadd, transact_eq_error hadd] at hp
      exact hs p hp
    · have hinsert := Work.yields_execute.mp (transactAll_eq_ok.mp hadd)
      exact (Store.insertProduct_eq_ok.mp hinsert).1

/-- Lines are sold in quantities that a cart may ask for. -/
theorem Effect.quantities {action : Action} {answer : Answer}
    (heffect : Effect settings call s action answer t)
    (hs : ∀ l ∈ s.lines, 0 < l.quantity ∧ l.quantity ≤ 999) :
    ∀ l ∈ t.lines, 0 < l.quantity ∧ l.quantity ≤ 999 := by
  cases heffect with
  | aside | catalogued | entered | purged => exact hs
  | placed hsound hplaced =>
      obtain ⟨records, -, rfl⟩ := hplaced.after
      intro l hl
      rcases List.mem_append.mp hl with hl | hl
      · exact hs l hl
      · exact hsound.quantities l hl
  | paid _ hpaid =>
      obtain ⟨records, -, rfl⟩ := hpaid.after
      exact hs
  | cancelled hreversed | refunded hreversed =>
      obtain ⟨o, -, -, rfl⟩ := hreversed
      exact hs
  | discarded hdiscarded =>
      rw [hdiscarded.after]
      exact fun l hl => hs l (List.mem_of_mem_filter hl)
  | reaped hdiscarded => exact fun l hl => hs l (hdiscarded.lines_subset hl)

theorem Effect.isSound {action : Action} {answer : Answer}
    (heffect : Effect settings call s action answer t) (hcall : call.IsTimed)
    (haction : action.Fits) (hs : s.IsSound) : t.IsSound := by
  refine ⟨heffect.prices haction hs.prices, ?_⟩
  cases heffect with
  | aside | catalogued | entered | purged => exact hs.orders
  | placed hsound hplaced =>
      obtain ⟨records, -, rfl⟩ := hplaced.after
      intro o ho
      rcases List.mem_append.mp ho with ho | ho
      · exact hs.orders o ho
      · rw [List.mem_singleton.mp ho]
        exact hsound.order_isSound hcall.pricedAt
  | paid _ hpaid =>
      obtain ⟨records, -, rfl⟩ := hpaid.after
      exact hs.withStatus _ _ _ hcall.now
  | cancelled hreversed | refunded hreversed =>
      obtain ⟨o, -, -, rfl⟩ := hreversed
      exact hs.withStatus _ _ _ hcall.now
  | discarded hdiscarded =>
      rw [hdiscarded.after]
      exact fun o ho => hs.orders o (List.mem_of_mem_filter ho)
  | reaped hdiscarded => exact fun o ho => hs.orders o (hdiscarded.orders_subset ho)

theorem Paid.survives {orderId : String} {tenders : List Tender} {key : Option String}
    {receipt : PaymentReceipt} (hpaid : Paid settings call orderId tenders key receipt s t)
    (hcall : call.IsTimed) (hfits : ∀ tender ∈ tenders, Word.Fits tender.amount.cents)
    (hs : s.IsSound) : Wire.Survives receipt := by
  obtain ⟨o, hfound, -, horder⟩ := hpaid.order
  have hold := hs.orders o (Store.order?_eq_some hfound).1
  apply PaymentReceipt.survives
  · rw [horder]
    exact ⟨hold.total, hold.createdAt, hcall.now⟩
  · rw [hpaid.payments]
    intro p hp
    obtain ⟨⟨tender, n⟩, hmem, rfl⟩ := List.mem_map.mp hp
    exact ⟨hfits tender (List.fst_mem_of_mem_zipIdx hmem), hcall.now⟩

end Shop

/-- A run whose calls have values in their ranges stores values in their ranges. -/
theorem Run.isSound {settings : Settings} {turns : List Turn} {shop : Shop}
    (hrun : Run settings turns shop) (hranged : Ranged turns) : shop.store.IsSound := by
  induction hrun with
  | opened => exact Store.isSound_empty
  | act call action hrun ih =>
      have hlast := hranged _ (List.mem_append_right _ List.mem_cons_self)
      have hbefore := ih fun turn hturn => hranged turn (List.mem_append_left _ hturn)
      exact (hrun.effect call action).isSound hlast.1 hlast.2 hbefore

theorem Run.prices_nonneg {settings : Settings} {turns : List Turn} {shop : Shop}
    (hrun : Run settings turns shop) : ∀ p ∈ shop.store.products, 0 ≤ p.price.cents := by
  induction hrun with
  | opened =>
      intro p hp
      cases hp
  | act call action _ ih => exact Shop.act_prices_nonneg call action _ ih

theorem Run.quantities {settings : Settings} {turns : List Turn} {shop : Shop}
    (hrun : Run settings turns shop) :
    ∀ l ∈ shop.store.lines, 0 < l.quantity ∧ l.quantity ≤ 999 :=
  hrun.invariant (by simp [Store.empty]) fun _ _ _ _ _ hs heffect => heffect.quantities hs

theorem Run.quantities_linesOf {settings : Settings} {turns : List Turn} {shop : Shop}
    (hrun : Run settings turns shop) (orderId : String) :
    ∀ l ∈ shop.store.linesOf orderId, 0 < l.quantity ∧ l.quantity ≤ 999 :=
  fun l hl => hrun.quantities l (List.mem_of_mem_filter hl)

theorem Call.isTimed_on {day : Int} (letter : Char)
    (h : (⟨day, 0, 0⟩ : Time.Instant).IsInCalendar) : (Call.on day letter).IsTimed := by
  have hvalid : (⟨day, 0, 0⟩ : Time.Instant).IsValid :=
    ⟨h, Nat.zero_lt_succ _, Or.inl (Nat.zero_lt_succ _)⟩
  exact ⟨hvalid, hvalid, hvalid⟩

theorem Run.ranged_play (settings : Settings) {steps : List (Call × Action)}
    (h : ∀ step ∈ steps, step.1.IsTimed ∧ step.2.Fits) : Ranged (Run.play settings steps).1 := by
  intro turn hturn
  apply h (turn.call, turn.action)
  rw [← Run.steps_play settings steps]
  exact List.mem_map_of_mem hturn

end OrderLedger
