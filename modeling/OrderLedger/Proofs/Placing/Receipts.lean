import OrderLedger.Proofs.Order.Kept
import OrderLedger.Proofs.Payment.Records

/-!
What the receipts of placed orders tell. The order that a receipt names is stored with the
total and the lines of the receipt when the call that places it returns, and it stays so
until it is deleted. The record of the attempt outlives the order, so that a call of the
attempt still gets the receipt of an order that was deleted.
-/

namespace OrderLedger

open Calculation Remembered

/-- The order of a receipt is stored with the total of the receipt, and its lines are those
of the receipt. -/
structure Store.Holds (s : Store) (receipt : OrderReceipt) : Prop where
  order : ∃ o, s.order? receipt.order.id = some o ∧ o.total = receipt.order.total
  lines : s.linesOf receipt.order.id = receipt.lines

namespace Store

variable {s t : Store} {receipt : OrderReceipt}

theorem Holds.hasOrder (h : s.Holds receipt) : s.hasOrder receipt.order.id = true := by
  obtain ⟨o, hfound, -⟩ := h.order
  exact hasOrder_eq_true.mpr ⟨o, order?_eq_some hfound⟩

/-- A receipt holds of an order that is kept, whichever status it has by now. -/
theorem Holds.of_keeps (h : s.Holds receipt) (hkeeps : s.Keeps t receipt.order.id) :
    t.Holds receipt := by
  obtain ⟨o, hfound, htotal⟩ := h.order
  obtain ⟨status, updatedAt, horder⟩ := hkeeps.order
  rw [hfound] at horder
  exact ⟨⟨_, horder, htotal⟩, hkeeps.lines.trans h.lines⟩

end Store

namespace Shop

variable {settings : Settings} {call : Call} {s t : Store} {receipt : OrderReceipt}

/-- A call that places an order tells of it what is stored. -/
theorem Placed.holds {catalog : Catalog} {r : OrderRequest} {d : Draft}
    (hplaced : Placed settings call d s t)
    (hsound : Draft.Sound catalog call.pricedAt call.ids r d) (hs : s.Intact) :
    t.Holds d.receipt := by
  refine ⟨⟨d.order, ?_, rfl⟩, ?_⟩
  · exact hplaced.order?_eq.trans (if_pos rfl)
  · exact (hplaced.linesOf_eq hsound hs d.order.id).trans (if_pos rfl)

/-- An action keeps what a receipt tells, or it is a deletion that has deleted the order. -/
theorem Effect.holds {action : Action} {answer : Answer}
    (heffect : Effect settings call s action answer t) (hs : s.Intact) (h : s.Holds receipt) :
    t.Holds receipt ∨ action.isDeletion = true ∧ t.hasOrder receipt.order.id = false :=
  (heffect.keeps hs (Or.inl h.hasOrder)).imp_left h.of_keeps

/-- A call of an attempt is answered from the live record of the attempt. -/
theorem place_live {shop : Shop} {r : OrderRequest} {key : String} {x : Remembered}
    (hkey : checkKey r.attemptId = .ok ()) (hattempt : r.attemptId = some key)
    (hlive : shop.store.live? placingScope key call.lookedUpAt = some x)
    (hvalue : valueOf? x.payload = some receipt) :
    shop.place call r = (.ok ⟨receipt, true⟩, shop) := by
  have hreplay : replay x = .ok ⟨receipt, true⟩ := replay_eq_ok.mpr ⟨hvalue, rfl⟩
  have hearlier : earlierPlacing shop.store call r = .ok (some ⟨receipt, true⟩) := by
    simp only [earlierPlacing, bind_eq_ok]
    refine ⟨(), hkey, ?_⟩
    simp only [hattempt, earlier?, hlive, hreplay]
    rfl
  rw [place, hearlier]

end Shop

namespace Turn

/-- The turn was a call of an attempt that has placed an order and told of it. -/
structure Places (turn : Turn) (key : String) (receipt : OrderReceipt) : Prop where
  action : ∃ r, turn.action = .operate (.place r) ∧ r.attemptId = some key
  answer : turn.answer = .ok (.placed ⟨receipt, false⟩)

/-- The turn was a deletion, and with it the order is gone. -/
structure Deletes (turn : Turn) (id : String) : Prop where
  action : turn.action.isDeletion = true
  before : turn.before.store.hasOrder id = true
  after : turn.after.store.hasOrder id = false

end Turn

namespace Run

variable {settings : Settings} {turns : List Turn} {shop : Shop}

/-- Every record of an attempt was left by a call that has placed an order, and what its
receipt tells is still stored unless the order has been deleted since. -/
theorem places (hrun : Run settings turns shop) (hranged : Ranged turns) :
    ∀ x ∈ shop.store.remembered, x.scope = placingScope →
      ∃ first writer since receipt, turns = first ++ writer :: since ∧
        writer.Places x.key receipt ∧ x.payload = payloadOf receipt ∧ Wire.Survives receipt ∧
        (shop.store.Holds receipt ∨ ∃ turn ∈ since, turn.Deletes receipt.order.id) := by
  induction hrun with
  | opened =>
      intro x hx
      cases hx
  | @act turns shop call action hrun ih =>
      have hbefore : Ranged turns := fun turn hturn => hranged turn (List.mem_append_left _ hturn)
      intro x hx hscope
      rcases (hrun.effect call action).mem_remembered hx with
        hold | ⟨-, r, d, rfl, hkey, hanswer, hsound, hplaced, hpayload⟩ | ⟨hpaying, -⟩
      · obtain ⟨first, writer, since, receipt, rfl, hplaces, hpayload, hsurvives, hkept⟩ :=
          ih hbefore x hold hscope
        refine ⟨first, writer, since ++ [⟨call, action, shop⟩], receipt, by simp, hplaces, hpayload,
          hsurvives, ?_⟩
        rcases hkept with hholds | ⟨turn, hturn, hdeletes⟩
        · rcases (hrun.effect call action).holds hrun.intact hholds with hholds' | ⟨haction, hgone⟩
          · exact Or.inl hholds'
          · exact Or.inr ⟨_, List.mem_append_right _ List.mem_cons_self,
              haction, hholds.hasOrder, hgone⟩
        · exact Or.inr ⟨turn, List.mem_append_left _ hturn, hdeletes⟩
      · have hlast := hranged _ (List.mem_append_right _ List.mem_cons_self)
        refine ⟨turns, _, [], d.receipt, rfl, ⟨⟨r, rfl, hkey⟩, hanswer⟩, hpayload, ?_,
          Or.inl (hplaced.holds hsound hrun.intact)⟩
        apply hsound.survives hlast.1.pricedAt
        intro p hp
        exact (hrun.isSound hbefore).prices p (Store.mem_catalogOf hp)
      · rw [hscope] at hpaying
        exact absurd hpaying (by decide)

/-- Whenever a call that places an order succeeds, its receipt names an order that is stored
with the total and exactly the lines of the receipt; only that a call which is answered from
the record of its attempt gets the receipt of the call that has left the record, whose order
may have been deleted in between. -/
theorem receipts_hold_until_deleted (hrun : Run settings turns shop) (hranged : Ranged turns)
    {earlier later : List Turn} {turn : Turn} (hsplit : turns = earlier ++ turn :: later)
    {r : OrderRequest} {o : Outcome OrderReceipt} (haction : turn.action = .operate (.place r))
    (hanswer : turn.answer = .ok (.placed o)) :
    (o.replayed = false → turn.after.store.Holds o.receipt) ∧
    (o.replayed = true → ∃ key first writer since, r.attemptId = some key ∧
      earlier = first ++ writer :: since ∧ writer.Places key o.receipt ∧
      turn.after.store = turn.before.store ∧
      (turn.after.store.Holds o.receipt ∨ ∃ t ∈ since, t.Deletes o.receipt.order.id)) := by
  obtain ⟨call, action, before⟩ := turn
  cases haction
  have hbefore := hrun.before_of_append hsplit
  have hearlier : Ranged earlier := by
    intro turn hturn
    exact hranged turn (hsplit ▸ List.mem_append_left _ hturn)
  have hplace : before.place call r = (.ok o, (before.place call r).2) := by
    change (before.place call r).1.map Reply.placed = _ at hanswer
    obtain ⟨_, heq, hreply⟩ := map_eq_ok.mp hanswer
    cases hreply
    exact Prod.ext heq rfl
  change (_ → (before.place call r).2.store.Holds _) ∧ (_ → ∃ key first writer since, _ ∧ _ ∧ _ ∧
    (before.place call r).2.store = before.store ∧
    ((before.place call r).2.store.Holds _ ∨ _))
  rcases Shop.place_eq_ok hplace with ⟨d, hprice, rfl, hplaced⟩ | ⟨now, hlost, hsame⟩
  · have hsound := Draft.build_eq_ok (mapError_eq_ok.mp hprice)
    exact ⟨fun _ => hplaced.holds hsound hbefore.intact, fun h => by cases h⟩
  · obtain ⟨key, x, hkey, hlive, hreplay⟩ := hlost
    obtain ⟨hx, hscope, rfl, -⟩ := Store.live?_eq_some hlive
    obtain ⟨hvalue, hreplayed⟩ := Shop.replay_eq_ok.mp hreplay
    obtain ⟨first, writer, since, receipt, hsince, hplaces, hpayload, hsurvives, hkept⟩ :=
      hbefore.places hearlier x hx hscope
    rw [hpayload, valueOf?_payloadOf hsurvives, Option.some.injEq] at hvalue
    subst hvalue
    rw [hsame]
    refine ⟨fun hfresh => ?_, fun _ => ?_⟩
    · rw [hreplayed] at hfresh
      cases hfresh
    · exact ⟨x.key, first, writer, since, hkey, hsince, hplaces, rfl, hkept⟩

/-- Soup is ordered for an attempt, and the order is deleted while it is pending. -/
def deletedOrder : List (Call × Action) :=
  [(Call.on 20000 'a',
      .addProduct ⟨"soup", "Soup", .simple, ⟨850⟩, true, ⟨20000, 0, 0⟩, ⟨20000, 0, 0⟩⟩),
   (Call.on 20000 'b',
      .operate (.place ⟨some "c-7", none, .pos, some "till-1", [⟨"soup", 2, []⟩]⟩)),
   (Call.on 20000 'c', .operate (.discard "b"))]

/-- The same attempt is made again. -/
def retriedOrder : Turn where
  call := Call.on 20000 'd'
  action := .operate (.place ⟨some "c-7", none, .pos, some "till-1", [⟨"soup", 2, []⟩]⟩)
  before := (play Settings.standard deletedOrder).2

theorem ranged_retriedOrder :
    Ranged ((play Settings.standard deletedOrder).1 ++ [retriedOrder]) := by
  have hcalendar : (⟨20000, 0, 0⟩ : Time.Instant).IsInCalendar := by decide
  have hfits : ∀ step ∈ deletedOrder, step.1.IsTimed ∧ step.2.Fits := by
    simp only [deletedOrder, List.forall_mem_cons, Action.Fits]
    exact ⟨⟨Call.isTimed_on 'a' hcalendar, by decide⟩, ⟨Call.isTimed_on 'b' hcalendar, trivial⟩,
      ⟨Call.isTimed_on 'c' hcalendar, trivial⟩, List.forall_mem_nil _⟩
  intro turn hturn
  rcases List.mem_append.mp hturn with hturn | hturn
  · exact ranged_play Settings.standard hfits turn hturn
  · rw [List.mem_singleton.mp hturn]
    exact ⟨Call.isTimed_on 'd' hcalendar, trivial⟩

theorem answer_retriedOrder :
    ∃ o, retriedOrder.answer = .ok (.placed o) ∧ o.replayed = true ∧
      retriedOrder.after.store.hasOrder o.receipt.order.id = false := by
  have hlive : (retriedOrder.before.store.live? placingScope "till-1"
      retriedOrder.call.lookedUpAt).isSome = true := by decide +kernel
  have hnone : retriedOrder.before.store.orders = [] := by decide +kernel
  obtain ⟨x, hx⟩ := Option.isSome_iff_exists.mp hlive
  have hranged : Ranged (play Settings.standard deletedOrder).1 := by
    intro turn hturn
    exact ranged_retriedOrder turn (List.mem_append_left _ hturn)
  obtain ⟨hmem, hscope, -⟩ := Store.live?_eq_some hx
  obtain ⟨_, _, _, receipt, -, -, hpayload, hsurvives, -⟩ :=
    (run_play Settings.standard deletedOrder).places hranged x hmem hscope
  have hvalue : valueOf? x.payload = some receipt := by
    rw [hpayload, valueOf?_payloadOf hsurvives]
  have hplace : retriedOrder.before.act retriedOrder.call retriedOrder.action =
      (.ok (.placed ⟨receipt, true⟩), retriedOrder.before) := by
    change (retriedOrder.before.place _ _).reply .placed = _
    rw [Shop.place_live rfl rfl hx hvalue]
    rfl
  refine ⟨⟨receipt, true⟩, congrArg Prod.fst hplace, rfl, ?_⟩
  rw [Turn.after, hplace, Store.hasOrder, hnone]
  rfl

/-- The receipt is that of the first call, and the order was deleted in between. -/
theorem receipt_of_deletedOrder :
    ∃ o first writer since, retriedOrder.answer = .ok (.placed o) ∧
      (play Settings.standard deletedOrder).1 = first ++ writer :: since ∧
      writer.Places "till-1" o.receipt ∧ ∃ t ∈ since, t.Deletes o.receipt.order.id := by
  obtain ⟨o, hanswer, hreplayed, hgone⟩ := answer_retriedOrder
  have hrun := (run_play Settings.standard deletedOrder).act retriedOrder.call retriedOrder.action
  obtain ⟨key, first, writer, since, hkey, hsince, hplaces, -, hkept⟩ :=
    (receipts_hold_until_deleted hrun ranged_retriedOrder rfl rfl hanswer).2 hreplayed
  cases hkey
  refine ⟨o, first, writer, since, hanswer, hsince, hplaces, ?_⟩
  rcases hkept with hholds | hdeleted
  · have hstored : retriedOrder.after.store.hasOrder o.receipt.order.id = true := hholds.hasOrder
    rw [hgone] at hstored
    cases hstored
  · exact hdeleted

/-- So it is not so that every receipt that is given names a stored order. -/
theorem receipt_outlives_order :
    ¬ ∀ (settings : Settings) (turns : List Turn) (shop : Shop), Run settings turns shop →
      Ranged turns → ∀ turn ∈ turns, ∀ r o, turn.action = .operate (.place r) →
        turn.answer = .ok (.placed o) → turn.after.store.Holds o.receipt := by
  intro hclaim
  obtain ⟨o, hanswer, -, hgone⟩ := answer_retriedOrder
  have hrun := (run_play Settings.standard deletedOrder).act retriedOrder.call retriedOrder.action
  have hholds := hclaim _ _ _ hrun ranged_retriedOrder retriedOrder
    (List.mem_append_right _ List.mem_cons_self) _ o rfl hanswer
  have hstored := hholds.hasOrder
  rw [hgone] at hstored
  cases hstored

end Run

end OrderLedger
