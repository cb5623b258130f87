import OrderLedger.Proofs.Shop.Basic
import OrderLedger.Shop.Paying

/-!
The transaction of a call that pays. It records the tenders of a pending order, which
becomes paid, and keeps the receipt under the key of the call; or another call holds the
key and nothing is written.
-/

namespace OrderLedger.Shop

open Work Calculation

variable {settings : Settings} {call : Call} {s t : Store}

/-- A pending order becomes paid by the given tenders, and the call's key is claimed for
the receipt. -/
structure Paid (settings : Settings) (call : Call) (orderId : String) (tenders : List Tender)
    (key : Option String) (receipt : PaymentReceipt) (s t : Store) : Prop where
  order : ∃ o, s.order? orderId = some o ∧ o.status = .pending ∧
    receipt.order = { o with status := .paid, updatedAt := call.now }
  payments : receipt.payments = paymentsBy settings call orderId tenders
  after : ∃ records,
    Claims settings Remembered.payingScope key (Remembered.payloadOf receipt) call.now s records ∧
    t = { s with
      orders := (s.withStatus orderId .pending .paid call.now).orders
      payments := s.payments ++ paymentsBy settings call orderId tenders
      remembered := records }

/-- The report on a new receipt gives the receipt, if it gives one. -/
theorem eq_of_report {receipt : PaymentReceipt} {o : Outcome PaymentReceipt}
    (h : report ⟨receipt, false⟩ = .ok o) : o = ⟨receipt, false⟩ := by
  unfold report at h
  simp only [Bool.false_eq_true, if_false] at h
  split at h
  · exact (Except.ok.inj h).symm
  · cases h

/-- Filling a record that was claimed with an empty answer is as good as claiming it for
the answer. -/
theorem fill_claimed {scope key : String} {payload : List UInt8} (s : Store)
    (now expiresAt : Time.Instant) {u : Store}
    (hu : u.remembered = (s.withRemembered ⟨scope, key, [], now, expiresAt⟩).remembered) :
    Store.fill scope key payload u = .ok { u with
      remembered := (s.withRemembered ⟨scope, key, payload, now, expiresAt⟩).remembered } := by
  have hunder (p : List UInt8) :
      (⟨scope, key, p, now, expiresAt⟩ : Remembered).isUnder scope key = true := by
    simp [Remembered.isUnder]
  have hany : u.remembered.any (fun r => r.isUnder scope key) = true := by
    rw [hu, List.any_eq_true]
    exact ⟨_, Store.mem_withRemembered.mpr (Or.inl rfl), hunder []⟩
  rw [Store.fill, if_pos hany, hu]
  unfold Store.withRemembered
  split
  · simp only [List.map_map, Except.ok.injEq, Store.mk.injEq, true_and]
    apply List.map_congr_left
    intro x _
    by_cases hx : x.isUnder scope key = true
    · simp [hx, hunder]
    · simp [hx]
  · next hnone =>
      simp only [List.any_eq_true, not_exists, not_and] at hnone
      simp only [List.map_append, List.map_cons, List.map_nil, hunder, if_true,
        Except.ok.injEq, Store.mk.injEq, List.append_cancel_right_eq, true_and]
      rw [List.map_congr_left (g := id), List.map_id]
      intro x hx
      simp [hnone x hx]

/-- Settling an order records its payments and moves it from pending to paid. -/
theorem yields_settle {orderId : String} {payments : List Payment} {now : Time.Instant}
    {receipt : PaymentReceipt} (h : (settle orderId payments now).Yields s receipt t) :
    (∃ o, s.order? orderId = some o ∧ o.status = .pending ∧
      receipt.order = { o with status := .paid, updatedAt := now }) ∧
    receipt.payments = payments ∧
    t = { s with
      orders := (s.withStatus orderId .pending .paid now).orders
      payments := s.payments ++ payments } := by
  simp only [settle, yields_bind, yields_findOrder, yields_checkMove, yields_stored,
    Store.yields_transition] at h
  obtain ⟨o, _, ⟨hfound, rfl⟩, _, _, ⟨hmove, rfl⟩, _, u, hinsert, moved, v, ⟨hmoved, rfl⟩, h⟩ := h
  obtain ⟨rfl, -⟩ := Store.yields_insertPayments.mp hinsert
  have hpending : o.status = .pending := by
    cases hstatus : o.status <;> simp_all [Status.canMoveTo]
  cases moved with
  | false => exact absurd h yields_fail
  | true =>
      simp only [if_true, yields_bind, yields_findOrder, yields_pure] at h
      obtain ⟨o', _, ⟨hfound', rfl⟩, rfl, rfl⟩ := h
      refine ⟨⟨o, hfound, hpending, ?_⟩, rfl, rfl⟩
      have hsame := order?_withStatus .paid now hfound hpending
      exact Option.some.inj (hfound'.symm.trans hsame)

theorem transact_payWork {orderId : String} {tenders : List Tender} {key : Option String}
    {o : Outcome PaymentReceipt} {events : List StockEvent}
    (h : transact (silently (payWork settings call orderId tenders key)) s = (.ok (o, events), t)) :
    events = [] ∧
      ((o.replayed = false ∧ Paid settings call orderId tenders key o.receipt s t) ∨
       (Lost Remembered.payingScope key call.now s o ∧ t = s)) := by
  obtain ⟨hevents, hpay⟩ := transact_silently.mp h
  refine ⟨hevents, ?_⟩
  obtain ⟨closing, u, hwork, hkept⟩ := transact_eq_ok.mp hpay
  simp only [payWork, yields_bind] at hwork
  obtain ⟨answer, v, hclaim, hwork⟩ := hwork
  rcases yields_claim hclaim with ⟨rfl, records, hrecords, rfl⟩ | ⟨o', rfl, hlost, rfl⟩
  · simp only [yields_bind, yields_pure] at hwork
    obtain ⟨receipt, w, hsettle, _, _, hkeep, rfl, rfl⟩ := hwork
    cases hkept
    obtain ⟨hpaid, hpayments, hw⟩ := yields_settle hsettle
    refine Or.inl ⟨rfl, hpaid, hpayments, ?_⟩
    cases key with
    | none =>
        obtain ⟨-, rfl⟩ := yields_pure.mp hkeep
        exact ⟨records, hrecords, hw⟩
    | some key =>
        obtain ⟨expiresAt, hexpiry, hfree, rfl⟩ := hrecords
        have hfill := yields_execute.mp (yields_stored.mp hkeep)
        have hclaimed := congrArg Store.remembered hw
        rw [fill_claimed s call.now expiresAt hclaimed, Except.ok.injEq] at hfill
        subst hfill hw
        exact ⟨_, ⟨expiresAt, hexpiry, hfree, rfl⟩, rfl⟩
  · obtain ⟨rfl, rfl⟩ := yields_pure.mp hwork
    cases hkept
    exact Or.inr ⟨hlost, rfl⟩

end OrderLedger.Shop
