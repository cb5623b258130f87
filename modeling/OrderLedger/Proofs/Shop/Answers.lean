import OrderLedger.Proofs.Shop.GivingBack
import OrderLedger.Proofs.Shop.Paying
import OrderLedger.Proofs.Stock.Sums

/-!
When operations on an order succeed, and which error they give where they do not. The ids of
a call are new, and no sum of stock leaves the 64-bit range; what is left to decide is the
status of the order.
-/

namespace OrderLedger

open Work Calculation

/-- The stock of the products that lines move can be told, also after it has changed by so
many times what they take, and so can the change. -/
def Store.SumsFit (s : Store) (sign : Int) (lines : List Line) : Prop :=
  ∀ productId ∈ Line.moved lines, Word.Fits (sign * Line.taken lines productId) ∧
    ∃ n, s.stockOf productId = .ok n ∧ Word.Fits (n + sign * Line.taken lines productId)

namespace Shop

variable {settings : Settings} {call : Call} {s t : Store} {orderId : String}

/-- The entries of lines are appended under ids that are distinct and new. -/
theorem yields_appendLineEntries (settings : Settings) (now : Time.Instant) (orderId : String)
    (reason : Reason) (sign : Int) (lines : List Line) {ids : Nat → String}
    (hids : Function.Injective ids) (hnew : ∀ n, ∀ e ∈ s.entries, e.id ≠ ids n) :
    (Store.appendEntries (lineEntries settings now ids orderId reason sign lines)).Yields s ()
      { s with
        entries := s.entries ++ lineEntries settings now ids orderId reason sign lines } := by
  rw [Store.yields_appendEntries]
  refine ⟨rfl, ?_, ?_⟩
  · rw [ids_lineEntries]
    exact List.nodup_range.map hids
  · intro e he other hother
    obtain ⟨⟨l, n⟩, -, rfl⟩ := List.mem_map.mp he
    exact hnew n other hother

theorem exists_appendLineEntries (settings : Settings) (now : Time.Instant) (orderId : String)
    (reason : Reason) {ids : Nat → String} {sign : Int} {lines : List Line}
    (hsign : sign = 1 ∨ sign = -1)
    (hlines : ∀ l ∈ lines, 0 < l.quantity ∧ l.quantity ≤ 999)
    (hids : Function.Injective ids) (hnew : ∀ n, ∀ e ∈ s.entries, e.id ≠ ids n)
    (hsums : s.SumsFit sign lines) :
    ∃ told, (appendWork (lineEntries settings now ids orderId reason sign lines) now).Yields s told
      { s with
        entries := s.entries ++ lineEntries settings now ids orderId reason sign lines } :=
  exists_appendWork
    (yields_appendLineEntries settings now orderId reason sign lines hids hnew)
    (exists_events_lineEntries hsign hlines rfl hsums)

section Reversing

variable {target : Status} {reason : Reason} {o : Order}

theorem exists_reverse (hfound : s.order? orderId = some o)
    (hmove : o.status.canMoveTo target = true)
    (hlines : ∀ l ∈ s.linesOf orderId, 0 < l.quantity ∧ l.quantity ≤ 999)
    (hfresh : call.IsFresh s) (hsums : s.SumsFit 1 (s.linesOf orderId)) :
    ∃ o' events t,
      transact (reverseWork settings call orderId target reason) s = (.ok (o', events), t) := by
  obtain ⟨hmem, hid⟩ := Store.order?_eq_some hfound
  have hin : s.isIn orderId o.status = true := Store.isIn_eq_true.mpr ⟨o, hmem, hid, rfl⟩
  have hafter := order?_withStatus target call.now hfound rfl
  obtain ⟨told, happend⟩ := exists_appendLineEntries settings call.now orderId reason
    (s := s.withStatus orderId o.status target call.now) (Or.inl rfl) hlines hfresh.distinct
    hfresh.entries hsums
  refine ⟨{ o with status := target, updatedAt := call.now }, told,
    { s.withStatus orderId o.status target call.now with
      entries := s.entries ++
        lineEntries settings call.now call.ids orderId reason 1 (s.linesOf orderId) },
    transact_of_commit ?_⟩
  simp only [reverseWork, yields_bind, yields_findOrder, yields_checkMove,
    Store.yields_transition]
  refine ⟨o, _, ⟨hfound, rfl⟩, (), _, ⟨hmove, rfl⟩, true, _, ⟨hin.symm, rfl⟩, ?_⟩
  simp only [if_true, yields_bind, yields_get, yields_calculate, yields_findOrder, yields_pure]
  exact ⟨_, _, ⟨rfl, rfl⟩, _, _, ⟨restocks_of_quantities hlines, rfl⟩, told, _, happend, _, _,
    ⟨hafter, rfl⟩, rfl, rfl⟩

theorem fails_reverse_absent (h : s.order? orderId = none) :
    (reverseWork settings call orderId target reason).Fails s
      (.error (.notFound "Order" orderId)) := by
  rw [reverseWork, fails_bind, fails_findOrder]
  exact Or.inl ⟨h, rfl⟩

theorem fails_reverse_refused (hfound : s.order? orderId = some o)
    (hmove : o.status.canMoveTo target = false) :
    (reverseWork settings call orderId target reason).Fails s
      (.error (.badMove o.status target)) := by
  simp only [reverseWork, fails_bind, yields_findOrder, fails_checkMove]
  exact Or.inr ⟨o, s, ⟨hfound, rfl⟩, Or.inl ⟨hmove, rfl⟩⟩

end Reversing

theorem exists_deletePending (settings : Settings) (now : Time.Instant) {ids : Nat → String}
    (hdeletable : s.isDeletable orderId = true)
    (hlines : ∀ l ∈ s.linesOf orderId, 0 < l.quantity ∧ l.quantity ≤ 999)
    (hids : Function.Injective ids) (hnew : ∀ n, ∀ e ∈ s.entries, e.id ≠ ids n)
    (hsums : s.SumsFit 1 (s.linesOf orderId)) :
    ∃ es t told, (deletePending settings now ids orderId).Yields s (some es) t ∧
      (Store.events es now).Yields t told t := by
  obtain ⟨told, happend⟩ := exists_appendLineEntries settings now orderId .correction
    (s := s.withoutOrder orderId) (Or.inl rfl) hlines hids hnew hsums
  have hevents := (yields_appendWork happend).2
  simp only [appendWork, yields_bind, yields_stored] at happend
  obtain ⟨_, u, happend, hu⟩ := happend
  rw [← Store.yields_events hu] at happend
  refine ⟨_, _, told, ?_, hevents⟩
  simp only [deletePending, yields_bind, yields_get, Store.yields_deleteIfPending]
  refine ⟨_, _, ⟨rfl, rfl⟩, true, _, ⟨hdeletable.symm, rfl⟩, ?_⟩
  simp only [if_true, yields_bind, yields_calculate, yields_stored, yields_pure]
  exact ⟨_, _, ⟨restocks_of_quantities hlines, rfl⟩, (), _, happend, rfl, rfl⟩

/-- A deletable order is deleted, and the call tells so. -/
theorem exists_discard (hdeletable : s.isDeletable orderId = true)
    (hlines : ∀ l ∈ s.linesOf orderId, 0 < l.quantity ∧ l.quantity ≤ 999)
    (hfresh : call.IsFresh s) (hsums : s.SumsFit 1 (s.linesOf orderId)) :
    ∃ events t, transact (discardWork settings call orderId) s = (.ok (true, events), t) := by
  obtain ⟨es, t, told, hdelete, hevents⟩ := exists_deletePending settings call.now hdeletable hlines
    hfresh.distinct hfresh.entries hsums
  refine ⟨told, t, transact_of_commit ?_⟩
  simp only [discardWork, yields_bind]
  refine ⟨_, _, hdelete, ?_⟩
  simp only [yields_bind, yields_stored, yields_pure]
  exact ⟨told, t, hevents, rfl, rfl⟩

/-- An order that may not be deleted is left alone, and the call tells so. -/
theorem discard_kept (hkept : s.isDeletable orderId = false) :
    transact (discardWork settings call orderId) s = (.ok (false, []), s) := by
  rw [transact_eq_ok]
  refine ⟨.rollback (false, []), s, ?_, rfl⟩
  simp only [discardWork, deletePending, yields_bind, yields_get, Store.yields_deleteIfPending]
  refine ⟨none, s, ⟨_, _, ⟨rfl, rfl⟩, false, _, ⟨hkept.symm, rfl⟩, ?_⟩, ?_⟩
  · exact yields_pure.mpr ⟨rfl, rfl⟩
  · exact yields_pure.mpr ⟨rfl, rfl⟩

section Paying

variable {tenders : List Tender} {o : Order}

theorem exists_settle {payments : List Payment} (now : Time.Instant)
    (hfound : s.order? orderId = some o) (hpending : o.status = .pending)
    (hinsert : (Store.insertPayments payments).Yields s ()
      { s with payments := s.payments ++ payments }) :
    ∃ receipt t, (settle orderId payments now).Yields s receipt t ∧
      receipt.payments = payments := by
  obtain ⟨hmem, hid⟩ := Store.order?_eq_some hfound
  have hin : s.isIn orderId .pending = true := Store.isIn_eq_true.mpr ⟨o, hmem, hid, hpending⟩
  have hmove : o.status.canMoveTo .paid = true := by rw [hpending]; rfl
  have hafter := order?_withStatus .paid now hfound hpending
  refine ⟨⟨{ o with status := .paid, updatedAt := now }, payments⟩,
    { s.withStatus orderId .pending .paid now with payments := s.payments ++ payments }, ?_, rfl⟩
  simp only [settle, yields_bind, yields_findOrder, yields_checkMove, yields_stored,
    Store.yields_transition]
  refine ⟨o, _, ⟨hfound, rfl⟩, (), _, ⟨hmove, rfl⟩, (), _, hinsert, true, _, ⟨hin.symm, rfl⟩, ?_⟩
  simp only [if_true, yields_bind, yields_findOrder, yields_pure]
  exact ⟨_, _, ⟨hafter, rfl⟩, rfl, rfl⟩

theorem checkTenders_nonneg (h : checkTenders tenders = .ok ()) :
    ∀ t ∈ tenders, 0 ≤ t.amount.cents := by
  unfold checkTenders at h
  split at h
  · cases h
  · have hall := forM_eq_ok.mp (mapError_eq_ok.mp h)
    intro t ht
    have htender := hall t ht
    unfold Validation.tender at htender
    split at htender
    · split at htender
      · cases htender
      · omega
    · split at htender
      · cases htender
      · omega

/-- Amounts that are not negative are added up if their exact sum fits, since no running sum is
above it. -/
theorem sumFrom_of_nonneg (start : Money) (ms : List Money) (hstart : 0 ≤ start.cents)
    (hleast : start.cents ≤ Word.greatest) (hms : ∀ m ∈ ms, 0 ≤ m.cents) :
    Money.sumFrom start ms =
      if start.cents + (ms.map (·.cents)).sum ≤ Word.greatest then
        .ok ⟨start.cents + (ms.map (·.cents)).sum⟩
      else .error .add := by
  induction ms generalizing start with
  | nil => simp [Money.sumFrom, hleast]
  | cons m rest ih =>
      obtain ⟨hm, hrest⟩ := List.forall_mem_cons.mp hms
      have hsum : 0 ≤ (rest.map (·.cents)).sum := by
        apply List.sum_nonneg
        intro n hn
        obtain ⟨more, hmore, rfl⟩ := List.mem_map.mp hn
        exact hrest more hmore
      rw [List.map_cons, List.sum_cons, ← add_assoc, Money.sumFrom, Money.add, Word.add]
      by_cases hfits : start.cents + m.cents ≤ Word.greatest
      · have hadd : Word.narrow? (start.cents + m.cents) = some (start.cents + m.cents) := by
          refine Word.narrow?_eq_some_iff.mpr ⟨⟨?_, hfits⟩, rfl⟩
          simp only [Word.least]
          omega
        rw [hadd]
        exact ih ⟨start.cents + m.cents⟩ (by change 0 ≤ start.cents + m.cents; omega) hfits hrest
      · have hadd : Word.narrow? (start.cents + m.cents) = none := if_neg fun h => hfits h.2
        rw [hadd, if_neg (by omega)]
        rfl

/-- What payments come to is told if their exact sum fits. -/
theorem totalOf_of_nonneg {payments : List Payment} (h : ∀ p ∈ payments, 0 ≤ p.amount.cents) :
    totalOf payments =
      if (payments.map (·.amount.cents)).sum ≤ Word.greatest then
        .ok ⟨(payments.map (·.amount.cents)).sum⟩
      else .error .add := by
  have hamounts : ∀ m ∈ payments.map (·.amount), 0 ≤ m.cents := by
    intro m hm
    obtain ⟨p, hp, rfl⟩ := List.mem_map.mp hm
    exact h p hp
  have hsum := sumFrom_of_nonneg Money.zero _ (le_refl 0) (by decide) hamounts
  rwa [List.map_map, Money.zero, zero_add] at hsum

theorem amounts_paymentsBy :
    (paymentsBy settings call orderId tenders).map (·.amount) = tenders.map (·.amount) := by
  conv_rhs => rw [← List.zipIdx_map_fst 0 tenders]
  rw [paymentsBy, List.map_map, List.map_map]
  rfl

theorem cents_paymentsBy :
    (paymentsBy settings call orderId tenders).map (·.amount.cents) =
      tenders.map (·.amount.cents) := by
  have hcents (payments : List Payment) :
      payments.map (·.amount.cents) = (payments.map (·.amount)).map (·.cents) := by
    rw [List.map_map]
    rfl
  rw [hcents, amounts_paymentsBy, List.map_map]
  rfl

theorem paymentsBy_nonneg (htenders : checkTenders tenders = .ok ()) :
    ∀ p ∈ paymentsBy settings call orderId tenders, 0 ≤ p.amount.cents := by
  intro p hp
  obtain ⟨⟨tender, n⟩, htender, rfl⟩ := List.mem_map.mp hp
  exact checkTenders_nonneg htenders tender (List.fst_mem_of_mem_zipIdx htender)

/-- The report on a payment adds up the tenders, and it fails if their sum does not fit. -/
theorem report_of_checked {receipt : PaymentReceipt} (htenders : checkTenders tenders = .ok ())
    (hpayments : receipt.payments = paymentsBy settings call orderId tenders) :
    report ⟨receipt, false⟩ =
      if (tenders.map (·.amount.cents)).sum ≤ Word.greatest then .ok ⟨receipt, false⟩
      else .error (.overflow .add) := by
  have hnonneg : ∀ p ∈ receipt.payments, 0 ≤ p.amount.cents := by
    rw [hpayments]
    exact paymentsBy_nonneg htenders
  have htotal := totalOf_of_nonneg hnonneg
  rw [hpayments, cents_paymentsBy, ← hpayments] at htotal
  by_cases hsum : (tenders.map (·.amount.cents)).sum ≤ Word.greatest
  · rw [if_pos hsum] at htotal ⊢
    simp [report, htotal]
  · rw [if_neg hsum] at htotal ⊢
    simp [report, htotal]

theorem report_eq_ok {receipt : PaymentReceipt} (htenders : checkTenders tenders = .ok ())
    (hsum : (tenders.map (·.amount.cents)).sum ≤ Word.greatest)
    (hpayments : receipt.payments = paymentsBy settings call orderId tenders) :
    report ⟨receipt, false⟩ = .ok ⟨receipt, false⟩ := by
  rw [report_of_checked htenders hpayments, if_pos hsum]

/-- The rows of a payment have the ids of the call, in order. -/
theorem ids_paymentsBy : (paymentsBy settings call orderId tenders).map (·.id) =
    (List.range tenders.length).map call.ids := by
  rw [paymentsBy, List.map_map, List.range_eq_range', ← List.zipIdx_map_snd, List.map_map]
  rfl

/-- The rows of checked tenders may be inserted for a stored order under new ids. -/
theorem yields_insertPaymentsBy (settings : Settings) (htenders : checkTenders tenders = .ok ())
    (hfresh : call.IsFresh s) (hstored : s.hasOrder orderId = true) :
    (Store.insertPayments (paymentsBy settings call orderId tenders)).Yields s ()
      { s with payments := s.payments ++ paymentsBy settings call orderId tenders } := by
  rw [Store.yields_insertPayments]
  refine ⟨rfl, ?_, ?_, ?_⟩
  · intro p hp
    have hnonneg := paymentsBy_nonneg htenders p hp
    obtain ⟨⟨t, n⟩, -, rfl⟩ := List.mem_map.mp hp
    exact ⟨hnonneg, hstored⟩
  · rw [ids_paymentsBy]
    exact List.nodup_range.map hfresh.distinct
  · intro p hp q hq
    obtain ⟨⟨t, n⟩, -, rfl⟩ := List.mem_map.mp hp
    exact hfresh.payments n q hq

theorem earlierPaying_unkeyed (htenders : checkTenders tenders = .ok ()) :
    earlierPaying s call tenders none = .ok none := by
  simp only [earlierPaying, bind_eq_ok]
  exact ⟨(), htenders, (), rfl, rfl⟩

/-- A pending order is paid by checked tenders, and the answer is the report on them. -/
theorem pay_of_pending {shop : Shop} (hfound : shop.store.order? orderId = some o)
    (hpending : o.status = .pending) (htenders : checkTenders tenders = .ok ())
    (hfresh : call.IsFresh shop.store) :
    ∃ receipt after, shop.pay call orderId tenders none = (report ⟨receipt, false⟩, after) ∧
      Paid shop.settings call orderId tenders none receipt shop.store after.store := by
  have hstored : shop.store.hasOrder orderId = true :=
    Store.hasOrder_eq_true.mpr ⟨o, Store.order?_eq_some hfound⟩
  obtain ⟨receipt, t, hsettle, -⟩ := exists_settle call.now hfound hpending
    (yields_insertPaymentsBy shop.settings htenders hfresh hstored)
  have hwork : (payWork shop.settings call orderId tenders none).Yields shop.store
      (.commit ⟨receipt, false⟩) t := by
    simp only [payWork, yields_bind]
    refine ⟨none, shop.store, yields_pure.mpr ⟨rfl, rfl⟩, ?_⟩
    simp only [yields_bind, yields_pure]
    exact ⟨receipt, t, hsettle, (), t, yields_pure.mpr ⟨rfl, rfl⟩, rfl, rfl⟩
  have htransact := transact_silently.mpr ⟨rfl, transact_of_commit hwork⟩
  have hcommit := commit_eq_ok.mpr ⟨[], t, htransact, rfl⟩
  refine ⟨receipt, { shop with store := t, feed := shop.feed.publishAll [] }, ?_, ?_⟩
  · rw [pay, earlierPaying_unkeyed htenders]
    simp only [hcommit]
  · rcases (transact_payWork htransact).2 with ⟨-, hpaid⟩ | ⟨hlost, -⟩
    · exact hpaid
    · cases hlost.replayed

theorem exists_pay {shop : Shop} (hfound : shop.store.order? orderId = some o)
    (hpending : o.status = .pending) (htenders : checkTenders tenders = .ok ())
    (hsum : (tenders.map (·.amount.cents)).sum ≤ Word.greatest)
    (hfresh : call.IsFresh shop.store) :
    ∃ outcome, (shop.pay call orderId tenders none).1 = .ok outcome := by
  obtain ⟨receipt, after, hpay, hpaid⟩ := pay_of_pending hfound hpending htenders hfresh
  refine ⟨⟨receipt, false⟩, ?_⟩
  rw [hpay]
  exact report_eq_ok htenders hsum hpaid.payments

/-- A payment without a key fails as the settling of its order fails. -/
theorem pay_of_fails {shop : Shop} {f : Fault ShopError} (htenders : checkTenders tenders = .ok ())
    (hfails : (settle orderId (paymentsBy shop.settings call orderId tenders) call.now).Fails
      shop.store f) :
    shop.pay call orderId tenders none = (.error f, shop) := by
  have hwork : (payWork shop.settings call orderId tenders none).Fails shop.store f := by
    simp only [payWork, fails_bind]
    exact Or.inr ⟨none, shop.store, yields_pure.mpr ⟨rfl, rfl⟩, fails_bind.mpr (Or.inl hfails)⟩
  rw [pay, earlierPaying_unkeyed htenders]
  simp only [commit_of_fails (fails_silently hwork)]

theorem fails_settle_absent {payments : List Payment} {now : Time.Instant}
    (h : s.order? orderId = none) :
    (settle orderId payments now).Fails s (.error (.notFound "Order" orderId)) := by
  rw [settle, fails_bind, fails_findOrder]
  exact Or.inl ⟨h, rfl⟩

theorem fails_settle_refused {payments : List Payment} {now : Time.Instant}
    (hfound : s.order? orderId = some o) (hmove : o.status.canMoveTo .paid = false) :
    (settle orderId payments now).Fails s (.error (.badMove o.status .paid)) := by
  simp only [settle, fails_bind, yields_findOrder, fails_checkMove]
  exact Or.inr ⟨o, s, ⟨hfound, rfl⟩, Or.inl ⟨hmove, rfl⟩⟩

end Paying

end Shop

end OrderLedger
