import OrderLedger.Proofs.Payment.Records
import OrderLedger.Proofs.Payment.Rows

/-!
An order is paid at most once, and a payment that is tried again changes nothing. The
payments of an order come from one call, and a call whose key is remembered gets the
receipt of the call that claimed it.
-/

namespace OrderLedger

open Calculation Remembered

namespace Shop

variable {settings : Settings} {call : Call} {shop : Shop} {s t : Store}

theorem eq_withStore {shop after : Shop} (hsettings : after.settings = shop.settings)
    (hstore : after.store = s) (hfeed : after.feed = shop.feed) :
    after = { shop with store := s } := by
  cases after
  cases hsettings
  cases hstore
  cases hfeed
  rfl

/-- A payment publishes nothing. -/
theorem pay_feed (call : Call) (orderId : String) (tenders : List Tender) (key : Option String)
    (shop : Shop) : (shop.pay call orderId tenders key).2.feed = shop.feed := by
  unfold pay
  split
  · rfl
  · rfl
  · have hfeed := silently_feed (payWork shop.settings call orderId tenders key) shop
    split
    · next hcommit => rwa [hcommit] at hfeed
    · next hcommit => rwa [hcommit] at hfeed

/-- A payment with valid tenders is answered from the live record of its key. -/
theorem pay_live {orderId key : String} {tenders : List Tender} {r : Remembered}
    {receipt : PaymentReceipt} (htenders : checkTenders tenders = .ok ())
    (hkey : checkKey (some key) = .ok ())
    (hlive : shop.store.live? payingScope key call.lookedUpAt = some r)
    (hvalue : valueOf? r.payload = some receipt) :
    shop.pay call orderId tenders (some key) = (.ok ⟨receipt, true⟩, shop) := by
  have hreplay : replay r = .ok ⟨receipt, true⟩ := replay_eq_ok.mpr ⟨hvalue, rfl⟩
  have hearlier : earlierPaying shop.store call tenders (some key) =
      .ok (some ⟨receipt, true⟩) := by
    simp only [earlierPaying, bind_eq_ok]
    refine ⟨(), htenders, (), hkey, ?_⟩
    simp only [earlier?, hlive, hreplay]
    rfl
  rw [pay, hearlier]

/-- Only a payment tells of new payments. -/
theorem Effect.paid?_eq_some {action : Action} {answer : Answer} {receipt : PaymentReceipt}
    (heffect : Effect settings call s action answer t) (h : answer.paid? = some receipt) :
    ∃ id tenders key, action = .operate (.pay id tenders key) ∧
      Paid settings call id tenders key receipt s t := by
  cases heffect with
  | aside marks hplaced hpaid =>
      rw [hpaid] at h
      cases h
  | @paid id tenders key told _ hchecked hpaid =>
      refine ⟨id, tenders, key, rfl, ?_⟩
      rcases hreport : report ⟨told, false⟩ with fault | o
      · rw [hreport] at h
        cases h
      · rw [hreport] at h
        obtain rfl := eq_of_report hreport
        cases h
        exact hpaid
  | entered hplaced hpaid =>
      rw [hpaid] at h
      cases h
  | _ => cases h

end Shop

namespace Turn

/-- The payments of an order are not those from before the turn. -/
def PaysFor (turn : Turn) (id : String) : Prop :=
  turn.after.store.rowsOf id ≠ turn.before.store.rowsOf id

/-- A turn has changed nothing but the status of one order, the payments of that order, and
the record of its key if it has one. -/
def PaysOnly (settings : Settings) (turn : Turn) (receipt : PaymentReceipt) : Prop :=
  ∃ id tenders key records,
    turn.action = .operate (.pay id tenders key) ∧
    turn.after = { turn.before with
      store := { turn.before.store with
        orders := turn.before.store.orders.map fun o =>
          if o.id = id then { o with status := .paid, updatedAt := turn.call.now } else o
        payments := turn.before.store.payments ++
          Shop.paymentsBy settings turn.call id tenders
        remembered := records } } ∧
    (key = none → records = turn.before.store.remembered) ∧
    ∀ k, key = some k → ∃ expiresAt, records = (turn.before.store.withRemembered
      ⟨payingScope, k, payloadOf receipt, turn.call.now, expiresAt⟩).remembered

end Turn

/-- Where ids are distinct, an order that is found by its id is the only one with it. -/
theorem Shop.Paid.orders_eq {settings : Settings} {call : Call} {s t : Store} {orderId : String}
    {tenders : List Tender} {key : Option String} {receipt : PaymentReceipt}
    (hpaid : Paid settings call orderId tenders key receipt s t) (hs : s.Intact) :
    (s.withStatus orderId .pending .paid call.now).orders = s.orders.map fun o =>
      if o.id = orderId then { o with status := .paid, updatedAt := call.now } else o := by
  obtain ⟨found, hfound, hpending, -⟩ := hpaid.order
  obtain ⟨hmem, hid⟩ := Store.order?_eq_some hfound
  apply List.map_congr_left
  intro o ho
  by_cases horder : o.id = orderId
  · have hsame := List.inj_on_of_nodup_map hs.orderIds ho hmem (horder.trans hid.symm)
    subst hsame
    simp [horder, hpending]
  · simp [horder]

namespace Run

variable {settings : Settings} {turns : List Turn} {shop : Shop}

theorem settledFirst (hrun : Run settings turns shop) : shop.store.SettledFirst := by
  induction hrun with
  | opened => exact fun _ _ => rfl
  | act call action hrun ih =>
      intro id hopen
      rcases (hrun.effect call action).rowsOf_eq hrun.intact ih id with
        ⟨hrows, hsame⟩ | ⟨_, _, -, -, hsettles⟩
      · rw [hsame] at hopen
        rw [hrows, ih id hopen]
      · rw [hsettles.after] at hopen
        cases hopen

/-- A turn changes the payments of an order only where it settles the order. -/
theorem paysFor (hrun : Run settings turns shop) (call : Call) (action : Action) {id : String}
    (h : Turn.PaysFor ⟨call, action, shop⟩ id) :
    ∃ tenders key, action = .operate (.pay id tenders key) ∧ tenders ≠ [] ∧
      Shop.Settles settings call id tenders shop.store (shop.act call action).2.store := by
  rcases (hrun.effect call action).rowsOf_eq hrun.intact hrun.settledFirst id with
    ⟨hrows, -⟩ | hsettles
  · exact absurd hrows h
  · exact hsettles

/-- No turn has changed the payments of an order that is not settled. -/
theorem paysFor_isSettled (hrun : Run settings turns shop) {turn : Turn} (hturn : turn ∈ turns)
    {id : String} (h : turn.PaysFor id) : shop.store.isSettled id = true := by
  induction hrun with
  | opened => cases hturn
  | act call action hrun ih =>
      have hstep := (hrun.effect call action).rowsOf_eq hrun.intact hrun.settledFirst id
      rcases List.mem_append.mp hturn with hturn | hturn
      · rcases hstep with ⟨-, hsame⟩ | ⟨_, _, -, -, hsettles⟩
        · rw [hsame, ih hturn]
        · exact hsettles.after
      · rw [List.mem_singleton.mp hturn] at h
        obtain ⟨_, _, -, -, hsettles⟩ := hrun.paysFor call action h
        exact hsettles.after

/-- No two turns change the payments of one order. -/
theorem pairwise_paysFor (hrun : Run settings turns shop) (id : String) :
    turns.Pairwise fun a b => ¬ (a.PaysFor id ∧ b.PaysFor id) := by
  induction hrun with
  | opened => exact .nil
  | act call action hrun ih =>
      rw [List.pairwise_append]
      refine ⟨ih, List.pairwise_singleton _ _, ?_⟩
      intro a ha b hb hboth
      rw [List.mem_singleton.mp hb] at hboth
      obtain ⟨_, _, -, -, hsettles⟩ := hrun.paysFor call action hboth.2
      have hsettled := hrun.paysFor_isSettled ha hboth.1
      rw [hsettles.before] at hsettled
      cases hsettled

/-- The payments of a settled order are those of one call. -/
theorem exists_paysFor (hrun : Run settings turns shop) {id : String}
    (h : shop.store.isSettled id = true) :
    ∃ turn ∈ turns, turn.PaysFor id ∧ ∃ tenders key,
      turn.action = .operate (.pay id tenders key) ∧ tenders ≠ [] ∧
      shop.store.rowsOf id = Shop.paymentsBy settings turn.call id tenders := by
  induction hrun with
  | opened => cases h
  | act call action hrun ih =>
      rcases (hrun.effect call action).rowsOf_eq hrun.intact hrun.settledFirst id with
        ⟨hrows, hsame⟩ | ⟨tenders, key, haction, hne, hsettles⟩
      · rw [hsame] at h
        obtain ⟨turn, hturn, hpays, tenders, key, haction, hne, heq⟩ := ih h
        exact ⟨turn, List.mem_append_left _ hturn, hpays, tenders, key, haction, hne,
          hrows.trans heq⟩
      · refine ⟨_, List.mem_append_right _ List.mem_cons_self, ?_, tenders, key, haction, hne,
          hsettles.rows⟩
        intro hrows
        obtain ⟨tender, rest, rfl⟩ := List.exists_cons_of_ne_nil hne
        have hnil := hsettles.rows.symm.trans (hrows.trans (hrun.settledFirst id hsettles.before))
        cases hnil

/-- A turn whose call has recorded payments has changed nothing else. -/
theorem paysOnly (hrun : Run settings turns shop) {turn : Turn} (hturn : turn ∈ turns)
    {receipt : PaymentReceipt} (h : turn.answer.paid? = some receipt) :
    turn.PaysOnly settings receipt := by
  obtain ⟨call, action, before⟩ := turn
  obtain ⟨_, hbefore⟩ := hrun.before hturn
  obtain ⟨id, tenders, key, rfl, hpaid⟩ := (hbefore.effect call action).paid?_eq_some h
  obtain ⟨records, hclaims, hafter⟩ := hpaid.after
  refine ⟨id, tenders, key, records, rfl, ?_, ?_, ?_⟩
  · have hsettings := (Shop.act_effect call (.operate (.pay id tenders key)) before).1
    have hfeed : (before.act call (.operate (.pay id tenders key))).2.feed = before.feed :=
      Shop.pay_feed call id tenders key before
    rw [hpaid.orders_eq hbefore.intact] at hafter
    exact Shop.eq_withStore hsettings hafter hfeed
  · rintro rfl
    exact hclaims
  · rintro k rfl
    obtain ⟨expiresAt, -, -, hrecords⟩ := hclaims
    exact ⟨expiresAt, hrecords⟩

/-- A call with valid tenders whose key has a live record gets the receipt of the call that
left the record. -/
theorem replayed (hrun : Run settings turns shop) (hranged : Ranged turns) {call : Call}
    {id key : String} {tenders : List Tender} {r : Remembered}
    (htenders : Shop.checkTenders tenders = .ok ())
    (hlive : shop.store.live? payingScope key call.lookedUpAt = some r) :
    ∃ writer ∈ turns, ∃ receipt, writer.Keeps r receipt ∧
      shop.act call (.operate (.pay id tenders (some key))) =
        (.ok (.paid ⟨receipt, true⟩), shop) := by
  obtain ⟨hmem, hscope, rfl, -⟩ := Store.live?_eq_some hlive
  obtain ⟨hkey, writer, hwriter, receipt, hkeeps, hsurvives⟩ := hrun.keeps hranged r hmem hscope
  have hvalue : valueOf? r.payload = some receipt := by
    rw [hkeeps.payload, valueOf?_payloadOf hsurvives]
  refine ⟨writer, hwriter, receipt, hkeeps, ?_⟩
  change (shop.pay call id tenders (some r.key)).reply .paid = _
  rw [Shop.pay_live htenders hkey hlive hvalue]
  rfl

/-- Over every run: of all actions at most one changes the payments of an order. An order
that is paid or refunded has the payments of that call in the order of its tenders, of which
there is one at least, and an order that is pending or cancelled has none. A call that
records payments changes nothing but its order, its payments and the record of its key. A
call whose key has a live record is answered with the receipt of the call that left the
record, and changes nothing. No record of a payment is left without a receipt. -/
theorem orders_are_paid_once (hrun : Run settings turns shop) (hranged : Ranged turns) :
    (∀ id, turns.Pairwise fun a b => ¬ (a.PaysFor id ∧ b.PaysFor id)) ∧
    (∀ id, shop.store.statusOf id = some .paid ∨ shop.store.statusOf id = some .refunded →
      ∃ turn ∈ turns, turn.PaysFor id ∧ ∃ tenders key,
        turn.action = .operate (.pay id tenders key) ∧ tenders ≠ [] ∧
        shop.store.rowsOf id = Shop.paymentsBy settings turn.call id tenders) ∧
    (∀ id, shop.store.statusOf id = some .pending ∨ shop.store.statusOf id = some .cancelled →
      shop.store.rowsOf id = []) ∧
    (∀ turn ∈ turns, ∀ receipt, turn.answer.paid? = some receipt →
      turn.PaysOnly settings receipt) ∧
    (∀ earlier turn later, turns = earlier ++ turn :: later → ∀ id tenders key r,
      turn.action = .operate (.pay id tenders (some key)) →
      Shop.checkTenders tenders = .ok () →
      turn.before.store.live? payingScope key turn.call.lookedUpAt = some r →
      ∃ writer ∈ earlier, ∃ receipt, writer.Keeps r receipt ∧
        turn.answer = .ok (.paid ⟨receipt, true⟩) ∧ turn.after = turn.before) ∧
    ∀ r ∈ shop.store.remembered, r.scope = payingScope →
      r.payload ≠ [] ∧ ∃ receipt : PaymentReceipt, valueOf? r.payload = some receipt := by
  refine ⟨hrun.pairwise_paysFor, ?_, ?_, ?_, ?_, ?_⟩
  · intro id hstatus
    apply hrun.exists_paysFor
    rcases hstatus with hstatus | hstatus
    · exact Store.isSettled_of_statusOf hstatus
    · exact Store.isSettled_of_statusOf hstatus
  · intro id hstatus
    apply hrun.settledFirst
    rcases hstatus with hstatus | hstatus
    · exact Store.isSettled_of_statusOf hstatus
    · exact Store.isSettled_of_statusOf hstatus
  · intro turn hturn receipt hanswer
    exact hrun.paysOnly hturn hanswer
  · intro earlier turn later hsplit id tenders key r haction htenders hlive
    obtain ⟨call, action, before⟩ := turn
    cases haction
    have hearlier : Ranged earlier := by
      intro turn hturn
      exact hranged turn (hsplit ▸ List.mem_append_left _ hturn)
    obtain ⟨writer, hwriter, receipt, hkeeps, hact⟩ :=
      (hrun.before_of_append hsplit).replayed hearlier htenders hlive
    exact ⟨writer, hwriter, receipt, hkeeps, congrArg Prod.fst hact, congrArg Prod.snd hact⟩
  · intro r hr hscope
    obtain ⟨-, writer, -, receipt, hkeeps, hsurvives⟩ := hrun.keeps hranged r hr hscope
    rw [hkeeps.payload]
    exact ⟨payloadOf_ne_nil hsurvives, receipt, valueOf?_payloadOf hsurvives⟩

/-- Soup is ordered and paid with two tenders. -/
def paidOrder : List (Call × Action) :=
  [(Call.on 20000 'a',
      .addProduct ⟨"soup", "Soup", .simple, ⟨850⟩, true, ⟨20000, 0, 0⟩, ⟨20000, 0, 0⟩⟩),
   (Call.on 20000 'b', .operate (.place ⟨some "c-7", none, .pos, none, [⟨"soup", 2, []⟩]⟩)),
   (Call.on 20000 'c',
      .operate (.pay "b" [⟨.cash, ⟨1000⟩⟩, ⟨.card, ⟨700⟩⟩] (some "till-1")))]

/-- The payment is tried again, with another order and another tender. -/
def retry : Action := .operate (.pay "gone" [⟨.cash, ⟨1700⟩⟩] (some "till-1"))

theorem retry_of_paidOrder :
    let played := play Settings.standard paidOrder
    let call := Call.on 20000 'd'
    Ranged (played.1 ++ [⟨call, retry, played.2⟩]) ∧
    ∃ receipt, played.2.act call retry = (.ok (.paid ⟨receipt, true⟩), played.2) := by
  have hanswer (turns : List Turn) (shop : Shop) (call : Call)
      (hrun : Run Settings.standard turns shop) (hranged : Ranged (turns ++ [⟨call, retry, shop⟩]))
      (hlive : (shop.store.live? payingScope "till-1" call.lookedUpAt).isSome = true) :
      ∃ receipt, shop.act call retry = (.ok (.paid ⟨receipt, true⟩), shop) := by
    obtain ⟨r, hr⟩ := Option.isSome_iff_exists.mp hlive
    obtain ⟨_, _, receipt, _, hanswer, hafter⟩ :=
      (orders_are_paid_once (hrun.act call retry) hranged).2.2.2.2.1 _ _ [] rfl _ _ _ r rfl rfl hr
    exact ⟨receipt, Prod.ext hanswer hafter⟩
  have hcalendar : (⟨20000, 0, 0⟩ : Time.Instant).IsInCalendar := by decide
  have hfits : ∀ step ∈ paidOrder, step.1.IsTimed ∧ step.2.Fits := by
    simp only [paidOrder, List.forall_mem_cons, Action.Fits]
    exact ⟨⟨Call.isTimed_on 'a' hcalendar, by decide⟩, ⟨Call.isTimed_on 'b' hcalendar, trivial⟩,
      ⟨Call.isTimed_on 'c' hcalendar, by decide⟩, List.forall_mem_nil _⟩
  have hranged : Ranged ((play Settings.standard paidOrder).1 ++
      [⟨Call.on 20000 'd', retry, (play Settings.standard paidOrder).2⟩]) := by
    intro turn hturn
    rcases List.mem_append.mp hturn with hturn | hturn
    · exact ranged_play Settings.standard hfits turn hturn
    · rw [List.mem_singleton.mp hturn]
      simp only [retry, Action.Fits]
      exact ⟨Call.isTimed_on 'd' hcalendar, by decide⟩
  exact ⟨hranged, hanswer _ _ _ (run_play _ _) hranged (by decide +kernel)⟩

end Run

end OrderLedger
