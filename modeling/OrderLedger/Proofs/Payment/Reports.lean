import OrderLedger.Proofs.Constraints
import OrderLedger.Proofs.Order.Details
import OrderLedger.Proofs.Payment.Once
import OrderLedger.Proofs.Shop.Keys

/-!
What is told of a payment. Tenders are recorded before they are added up for the report, and they
are added up again whenever the order is looked up. As long as their sum fits in 64 bits, a payment
that fails has left nothing, and one that succeeds is shown with its exact sum. Where the sum does
not fit, the payment has been committed by the time its call fails.
-/

namespace OrderLedger

open Calculation Remembered Work

/-- What tenders come to, however large that is. -/
def Tender.total (tenders : List Tender) : Int := (tenders.map (·.amount.cents)).sum

/-- What the payments of a receipt come to, however large that is. -/
def PaymentReceipt.total (receipt : PaymentReceipt) : Int :=
  (receipt.payments.map (·.amount.cents)).sum

/-- The order of a receipt is settled, by the payments of the receipt and no others. -/
structure Store.Honours (s : Store) (receipt : PaymentReceipt) : Prop where
  settled : s.isSettled receipt.order.id = true
  rows : s.rowsOf receipt.order.id = receipt.payments

/-- The details of an order that honours a receipt show the total of the receipt if that fits. -/
theorem Store.Honours.details {s : Store} {receipt : PaymentReceipt} (h : s.Honours receipt)
    (hnonneg : ∀ p ∈ s.payments, 0 ≤ p.amount.cents) :
    if receipt.total ≤ Word.greatest then
      ∃ shown, Shop.details s receipt.order.id = .ok shown ∧
        shown.payments.Perm receipt.payments ∧ shown.totalPaid.cents = receipt.total
    else Shop.details s receipt.order.id = .error (.overflow .add) := by
  obtain ⟨o, hfound⟩ : ∃ o, s.order? receipt.order.id = some o := by
    have hsettled := h.settled
    cases hfound : s.order? receipt.order.id with
    | some o => exact ⟨o, rfl⟩
    | none =>
        rw [isSettled, statusOf, hfound] at hsettled
        cases hsettled
  have hdetails := Shop.details_of_nonneg hfound hnonneg
  rw [h.rows] at hdetails
  split
  · next hfits =>
      refine ⟨_, hdetails.trans (if_pos hfits), ?_, rfl⟩
      rw [← h.rows]
      exact chronological_perm _ _
  · next hover => exact hdetails.trans (if_neg hover)

namespace Shop

variable {settings : Settings} {call : Call} {s t : Store} {shop : Shop} {orderId : String}
  {tenders : List Tender} {key : Option String} {receipt : PaymentReceipt}

theorem Paid.orderId_eq (hpaid : Paid settings call orderId tenders key receipt s t) :
    receipt.order.id = orderId := by
  obtain ⟨o, hfound, -, horder⟩ := hpaid.order
  rw [horder]
  exact (Store.order?_eq_some hfound).2

theorem Paid.total_eq (hpaid : Paid settings call orderId tenders key receipt s t) :
    receipt.total = Tender.total tenders := by
  rw [PaymentReceipt.total, hpaid.payments, cents_paymentsBy]
  rfl

theorem Paid.honours (hpaid : Paid settings call orderId tenders key receipt s t)
    (hfirst : s.SettledFirst) : t.Honours receipt := by
  obtain ⟨hsettles, -⟩ := hpaid.settles hfirst
  rw [← hpaid.orderId_eq] at hsettles
  exact ⟨hsettles.after, by rw [hsettles.rows, hpaid.payments, hpaid.orderId_eq]⟩

/-- No action takes from a receipt what honours it. -/
theorem Effect.honours {action : Action} {answer : Answer}
    (heffect : Effect settings call s action answer t) (hs : s.Intact) (hfirst : s.SettledFirst)
    (h : s.Honours receipt) : t.Honours receipt := by
  rcases heffect.rowsOf_eq hs hfirst receipt.order.id with
    ⟨hrows, hsame⟩ | ⟨_, _, -, -, hsettles⟩
  · exact ⟨hsame.trans h.settled, hrows.trans h.rows⟩
  · have hsettled := h.settled
    rw [hsettles.before] at hsettled
    cases hsettled

/-- What a call has done: it has recorded its tenders, and then the report on them is its answer; or
it has done nothing, and a success repeats the answer of a record. -/
theorem pay_cases (call : Call) (orderId : String) (tenders : List Tender) (key : Option String)
    (shop : Shop) :
    let result := shop.pay call orderId tenders key
    (∃ receipt, Paid shop.settings call orderId tenders key receipt shop.store result.2.store ∧
      result.1 = report ⟨receipt, false⟩) ∨
    (result.2 = shop ∧ ∀ o, result.1 = .ok o → ∃ k now, Lost payingScope k now shop.store o) := by
  intro result
  rcases hresult : result with ⟨answer, after⟩
  change shop.pay call orderId tenders key = _ at hresult
  unfold pay at hresult
  split at hresult
  · cases hresult
    refine Or.inr ⟨rfl, fun o ho => ?_⟩
    cases ho
  · next o hearlier =>
      cases hresult
      simp only [earlierPaying, bind_eq_ok] at hearlier
      obtain ⟨_, -, _, -, hlost⟩ := hearlier
      refine Or.inr ⟨rfl, ?_⟩
      rintro _ ⟨⟩
      exact ⟨_, _, earlier?_eq_some hlost⟩
  · split at hresult
    · next o paid hcommit =>
        cases hresult
        obtain ⟨events, t, htransact, rfl⟩ := commit_eq_ok.mp hcommit
        rcases transact_payWork htransact with ⟨rfl, ⟨hfresh, hpaid⟩ | ⟨hlost, rfl⟩⟩
        · obtain ⟨receipt, replayed⟩ := o
          cases hfresh
          exact Or.inl ⟨receipt, hpaid, rfl⟩
        · refine Or.inr ⟨rfl, fun o' ho => ?_⟩
          rw [report, hlost.replayed] at ho
          cases ho
          exact ⟨_, _, hlost⟩
    · next fault paid hcommit =>
        cases hresult
        refine Or.inr ⟨commit_eq_error hcommit, fun o ho => ?_⟩
        cases ho

/-- A pending order is paid by the first call with its key, and the report is the answer. -/
theorem pay_of_first {o : Order} (hfound : shop.store.order? orderId = some o)
    (hpending : o.status = .pending) (htenders : checkTenders tenders = .ok ())
    (hkey : checkKey key = .ok ())
    (hfirst : IsFirst shop.settings call shop.store payingScope key)
    (hfresh : call.IsFresh shop.store) :
    ∃ receipt after, shop.pay call orderId tenders key = (report ⟨receipt, false⟩, after) ∧
      Paid shop.settings call orderId tenders key receipt shop.store after.store := by
  obtain ⟨records, hclaims⟩ := hfirst.claims []
  have hstored : shop.store.hasOrder orderId = true :=
    Store.hasOrder_eq_true.mpr ⟨o, Store.order?_eq_some hfound⟩
  obtain ⟨receipt, t, hsettle, -⟩ := exists_settle (s := { shop.store with remembered := records })
    call.now hfound hpending
    (yields_insertPaymentsBy shop.settings htenders (hfresh.remembering records) hstored)
  obtain ⟨u, hwork⟩ := yields_payWork hclaims hsettle
  have htransact := transact_silently.mpr ⟨rfl, transact_of_commit hwork⟩
  have hcommit := commit_eq_ok.mpr ⟨[], u, htransact, rfl⟩
  have hearlier : earlierPaying shop.store call tenders key = .ok none := by
    simp only [earlierPaying, bind_eq_ok]
    exact ⟨(), htenders, (), hkey, hfirst.earlier?⟩
  refine ⟨receipt, { shop with store := u, feed := shop.feed.publishAll [] }, ?_, ?_⟩
  · rw [pay, hearlier]
    simp only [hcommit]
  · rcases (transact_payWork htransact).2 with ⟨-, hpaid⟩ | ⟨hlost, -⟩
    · exact hpaid
    · cases hlost.replayed

end Shop

namespace Run

variable {settings : Settings} {turns : List Turn} {shop : Shop}

/-- Every record of a payment holds a receipt that is still honoured. -/
theorem honours (hrun : Run settings turns shop) (hranged : Ranged turns) :
    ∀ r ∈ shop.store.remembered, r.scope = payingScope →
      ∃ receipt, valueOf? r.payload = some receipt ∧ shop.store.Honours receipt := by
  induction hrun with
  | opened => exact List.forall_mem_nil _
  | act call action hrun ih =>
      have hbefore : Ranged _ := fun turn hturn => hranged turn (List.mem_append_left _ hturn)
      have heffect := hrun.effect call action
      intro r hr hscope
      rcases heffect.mem_remembered hr with
        hold | ⟨hplacing, -⟩ | ⟨-, id, tenders, receipt, rfl, -, -, hpaid, hpayload, -⟩
      · obtain ⟨receipt, hvalue, hhonours⟩ := ih hbefore r hold hscope
        exact ⟨receipt, hvalue, heffect.honours hrun.intact hrun.settledFirst hhonours⟩
      · rw [hscope] at hplacing
        exact absurd hplacing (by decide)
      · have hlast := hranged _ (List.mem_append_right _ List.mem_cons_self)
        have hsurvives := hpaid.survives hlast.1 hlast.2 (hrun.isSound hbefore)
        exact ⟨receipt, by rw [hpayload, valueOf?_payloadOf hsurvives],
          hpaid.honours hrun.settledFirst⟩

/-- After every run, for a payment with checked tenders. If it fails, it has left nothing, unless
the exact sum of its tenders does not fit in 64 bits. If it succeeds, the details of its order show
the exact sum of its payments where that fits; for a payment that the call itself has recorded
this is the sum of the tenders, and it fits. Where the sum of the tenders does not fit, every
call that would otherwise pay its order fails on the sum, and has paid the order nonetheless. -/
theorem payments_are_told_if_they_fit (hrun : Run settings turns shop) (hranged : Ranged turns)
    (call : Call) {orderId : String} {tenders : List Tender} {key : Option String}
    (hchecked : Shop.checkTenders tenders = .ok ()) :
    let result := shop.pay call orderId tenders key
    (∀ fault, result.1 = .error fault → result.2 = shop ∨
      fault = .overflow .add ∧ Word.greatest < Tender.total tenders ∧
        ∃ receipt, Shop.Paid settings call orderId tenders key receipt shop.store
          result.2.store) ∧
    (∀ o, result.1 = .ok o →
      (o.replayed = false → o.receipt.order.id = orderId ∧
        o.receipt.total = Tender.total tenders ∧ Tender.total tenders ≤ Word.greatest) ∧
      if o.receipt.total ≤ Word.greatest then
        ∃ shown, Shop.details result.2.store o.receipt.order.id = .ok shown ∧
          shown.payments.Perm o.receipt.payments ∧ shown.totalPaid.cents = o.receipt.total
      else Shop.details result.2.store o.receipt.order.id = .error (.overflow .add)) ∧
    (Word.greatest < Tender.total tenders → shop.store.statusOf orderId = some .pending →
      Shop.checkKey key = .ok () → Shop.IsFirst settings call shop.store payingScope key →
      call.IsFresh shop.store →
      result.1 = .error (.overflow .add) ∧ ∃ receipt,
        Shop.Paid settings call orderId tenders key receipt shop.store result.2.store) := by
  intro result
  have hsettings := hrun.settings_eq
  have hnonneg : ∀ p ∈ result.2.store.payments, 0 ≤ p.amount.cents :=
    (hrun.act call (.operate (.pay orderId tenders key))).payments_nonneg
  have hcases := Shop.pay_cases call orderId tenders key shop
  have hreport {receipt : PaymentReceipt} (hpaid : Shop.Paid shop.settings call orderId tenders key
      receipt shop.store result.2.store) :
      Shop.report ⟨receipt, false⟩ =
        if Tender.total tenders ≤ Word.greatest then .ok ⟨receipt, false⟩
        else .error (.overflow .add) := Shop.report_of_checked hchecked hpaid.payments
  refine ⟨fun fault hfault => ?_, fun o ho => ?_, fun hover hpending hkey hfirst hfresh => ?_⟩
  · rcases hcases with ⟨receipt, hpaid, hanswer⟩ | ⟨hsame, -⟩
    · rw [hfault, hreport hpaid] at hanswer
      split at hanswer
      · cases hanswer
      · next hover =>
          cases hanswer
          exact Or.inr ⟨rfl, not_le.mp hover, receipt, hsettings ▸ hpaid⟩
    · exact Or.inl hsame
  · rcases hcases with ⟨receipt, hpaid, hanswer⟩ | ⟨hsame, hreplay⟩
    · rw [ho, hreport hpaid] at hanswer
      split at hanswer
      · next hfits =>
          cases hanswer
          exact ⟨fun _ => ⟨hpaid.orderId_eq, hpaid.total_eq, hfits⟩,
            (hpaid.honours hrun.settledFirst).details hnonneg⟩
      · cases hanswer
    · obtain ⟨k, now, hlost⟩ := hreplay o ho
      refine ⟨fun hfresh => absurd (hlost.replayed.symm.trans hfresh) (by decide), ?_⟩
      obtain ⟨_, r, -, hlive, hreplay⟩ := hlost
      obtain ⟨hmem, hscope, -, -⟩ := Store.live?_eq_some hlive
      obtain ⟨receipt, hvalue, hhonours⟩ := hrun.honours hranged r hmem hscope
      have hreceipt := hvalue.symm.trans (Shop.replay_eq_ok.mp hreplay).1
      cases hreceipt
      have hafter : result.2.store.Honours o.receipt := hsame ▸ hhonours
      exact hafter.details hnonneg
  · obtain ⟨o, hfound, hstatus⟩ := Option.map_eq_some_iff.mp hpending
    obtain ⟨receipt, after, hpay, hpaid⟩ := Shop.pay_of_first hfound hstatus hchecked hkey
      (hsettings ▸ hfirst) hfresh
    have hresult : result = (Shop.report ⟨receipt, false⟩, after) := hpay
    rw [hresult] at hreport ⊢
    rw [hreport hpaid, if_neg (not_le.mpr hover)]
    exact ⟨rfl, receipt, hsettings ▸ hpaid⟩

/-- Soup is ordered. -/
def openBill : List (Call × Action) :=
  [(Call.on 20000 'a',
      .addProduct ⟨"soup", "Soup", .simple, ⟨850⟩, true, ⟨20000, 0, 0⟩, ⟨20000, 0, 0⟩⟩),
   (Call.on 20000 'b', .operate (.place ⟨some "c-7", none, .pos, none, [⟨"soup", 2, []⟩]⟩))]

/-- Two tenders are one cent too much to be added up. The call fails, and the order is paid. -/
theorem overflow_of_openBill :
    let played := play Settings.standard openBill
    let tenders : List Tender := [⟨.cash, ⟨Word.greatest⟩⟩, ⟨.cash, ⟨1⟩⟩]
    let result := played.2.pay (Call.on 20000 'c') "b" tenders (some "till-1")
    Ranged played.1 ∧ result.1 = .error (.overflow .add) ∧
      (∃ receipt, Shop.Paid Settings.standard (Call.on 20000 'c') "b" tenders (some "till-1")
        receipt played.2.store result.2.store) ∧
      result.2.store.statusOf "b" = some .paid ∧
      (result.2.store.rowsOf "b").map (·.amount.cents) = [Word.greatest, 1] := by
  intro played tenders result
  have hrun : Run Settings.standard played.1 played.2 := run_play Settings.standard openBill
  have hcalendar : (⟨20000, 0, 0⟩ : Time.Instant).IsInCalendar := by decide
  have hranged : Ranged played.1 := by
    refine ranged_play Settings.standard ?_
    simp only [openBill, List.forall_mem_cons, Action.Fits]
    exact ⟨⟨Call.isTimed_on 'a' hcalendar, by decide⟩, ⟨Call.isTimed_on 'b' hcalendar, trivial⟩,
      List.forall_mem_nil _⟩
  have hfresh : (Call.on 20000 'c').IsFresh played.2.store := by
    apply Call.isFresh_on <;> decide +kernel
  have hnone : played.2.store.remembered = [] := by decide +kernel
  have hfree (k : String) (now : Time.Instant) :
      played.2.store.live? payingScope k now = none := by
    rw [Store.live?, hnone, List.find?_nil]
  have hfirst : Shop.IsFirst Settings.standard (Call.on 20000 'c') played.2.store payingScope
      (some "till-1") :=
    ⟨fun k _ => hfree k _, fun k _ => hfree k _, fun _ _ => ⟨⟨20001, 0, 0⟩, by decide⟩⟩
  have hpending : played.2.store.statusOf "b" = some .pending := by decide +kernel
  have hover : Word.greatest < Tender.total tenders := by decide
  have hchecked : Shop.checkTenders tenders = .ok () := by decide
  have hkey : Shop.checkKey (some "till-1") = .ok () := by decide
  obtain ⟨hanswer, hpaid⟩ := (payments_are_told_if_they_fit hrun hranged (Call.on 20000 'c')
    hchecked).2.2 hover hpending hkey hfirst hfresh
  refine ⟨hranged, hanswer, hpaid, ?_, ?_⟩
  · decide +kernel
  · decide +kernel

end Run

end OrderLedger
