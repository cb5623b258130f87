import OrderLedger.Proofs.Shop.Keys
import OrderLedger.Proofs.Stock.Readable

/-!
The rules of the tables, and the rows that the shop writes. What a call has checked before it
writes leaves no rule that its rows could break: totals and prices are not negative, quantities
are positive, a component comes after its bundle, and ids are new. What may still fail is a sum
over quantities or over the ledger, or the stock may not suffice.
-/

namespace OrderLedger

open Work Calculation Remembered

theorem Call.IsFresh.remembering {call : Call} {s : Store} (h : call.IsFresh s)
    (records : List Remembered) : call.IsFresh { s with remembered := records } :=
  ⟨h.distinct, h.orders, h.lines, h.payments, h.entries⟩

namespace Shop

variable {settings : Settings} {call : Call} {s u : Store} {d : Draft} {stock : String → Int}
  {f : Fault ShopError}

theorem fails_stored {α : Type} {work : Work StorageError α} :
    (stored work).Fails s f ↔ ∃ cause, work.Fails s cause ∧ f = cause.map .ofStorage :=
  fails_recast

/-- The call is the one to answer under its key, and it goes on from `u`. A call without a key
goes on from the store as it is. -/
def Wins (α : Type) [Wire α] (settings : Settings) (scope : String) (key : Option String)
    (payload : List UInt8) (call : Call) (s u : Store) : Prop :=
  (claim (α := α) settings scope key payload call.now).Yields s none u

theorem Wins.claims {α : Type} [Wire α] {scope : String} {key : Option String}
    {payload : List UInt8} (h : Wins α settings scope key payload call s u) :
    ∃ records, Claims settings scope key payload call.now s records ∧
      u = { s with remembered := records } := by
  rcases yields_claim h with ⟨-, hclaimed⟩ | ⟨o, heq, -⟩
  · exact hclaimed
  · cases heq

section Placing

/-- All rows of a draft are inserted on `s`: its order, then its lines, then the entries of its
sales. -/
structure Inserts (settings : Settings) (call : Call) (d : Draft) (s : Store) : Prop where
  order : Store.insertOrder d.order s = .ok { s with orders := s.orders ++ [d.order] }
  lines : (Store.insertLines d.lines).Yields { s with orders := s.orders ++ [d.order] } ()
    { s with orders := s.orders ++ [d.order], lines := s.lines ++ d.lines }
  entries : ∃ es, sales settings call d = .ok es ∧ (Store.appendEntries es).Yields
    { s with orders := s.orders ++ [d.order], lines := s.lines ++ d.lines } ()
    { s with
      orders := s.orders ++ [d.order]
      lines := s.lines ++ d.lines
      entries := s.entries ++ es }

/-- Why a draft may yet come to nothing, where there is so much of each product in stock. -/
inductive Setback (policy : OversellPolicy) (d : Draft) (stock : String → Int) :
    Fault ShopError → Prop where
  | short {productId : String} (hpolicy : policy = .refuse)
      (hlacks : Lacks stock (Line.taken d.lines) (Line.moved d.lines) productId) :
      Setback policy d stock
        (.error (.insufficientStock productId (Line.taken d.lines productId) (stock productId)))
  /-- The quantities of a product cannot be added up for the check of the stock. -/
  | needed {productId : String} (hpolicy : policy = .refuse)
      (hmoved : productId ∈ Line.moved d.lines)
      (hbeyond : ¬ Word.Fits (Line.taken d.lines productId)) :
      Setback policy d stock (.overflow .add)
  /-- The sales of a product cannot be added up for its event. -/
  | sold {productId : String} (hmoved : productId ∈ Line.moved d.lines)
      (hbeyond : ¬ Word.Fits (-Line.taken d.lines productId)) :
      Setback policy d stock (.overflow .add)
  /-- What would be left of a product is out of range. -/
  | left {productId : String} (hmoved : productId ∈ Line.moved d.lines)
      (hbeyond : ¬ Word.Fits (stock productId - Line.taken d.lines productId)) :
      Setback policy d stock (.error (.ofStorage .sumOverflow))

variable {catalog : Catalog} {r : OrderRequest}

theorem inserts_of_fresh (settings : Settings)
    (hbuild : Draft.build catalog call.pricedAt call.ids r = .ok d)
    (hprices : ∀ p ∈ catalog.products, 0 ≤ p.price.cents) (hfresh : call.IsFresh s) :
    Inserts settings call d s := by
  obtain ⟨horder, hlines⟩ := insert_draft hbuild hprices hfresh
  have hlater : Function.Injective fun n => call.ids (d.lines.length + 1 + n) :=
    fun m n heq => Nat.add_left_cancel (hfresh.distinct heq)
  exact ⟨horder, hlines, _, sales_of_quantities (Draft.build_eq_ok hbuild).quantities,
    yields_appendLineEntries settings call.now d.order.id .sale (-1) d.lines hlater
      fun n => hfresh.entries _⟩

/-- Once its rows are inserted, an order fails only because of a sum. -/
theorem Inserts.setback (hinserts : Inserts settings call d s)
    (hquantities : ∀ l ∈ d.lines, 0 < l.quantity ∧ l.quantity ≤ 999)
    (hstock : ∀ productId, s.stockOf productId = .ok (stock productId))
    (h : (writeOrder settings call d).Fails s f) (policy : OversellPolicy) :
    Setback policy d stock f := by
  obtain ⟨horder, hlines, es, hsales, happend⟩ := hinserts
  simp only [writeOrder, fails_bind, fails_stored, fails_execute, yields_stored,
    yields_execute, fails_calculate, yields_calculate] at h
  rcases h with ⟨_, ⟨e, hrefused, -⟩, -⟩ | ⟨_, v, hordered, h⟩
  · cases horder.symm.trans hrefused
  obtain rfl := Except.ok.inj (hordered.symm.trans horder)
  rcases h with ⟨_, hrefused, -⟩ | ⟨_, w, hlined, h⟩
  · exact absurd hrefused hlines.not_fails
  obtain ⟨-, rfl⟩ := hlines.unique hlined
  rcases h with ⟨cause, hnone, -⟩ | ⟨es', _, ⟨hsold, rfl⟩, h⟩
  · cases hsales.symm.trans hnone
  obtain rfl := Except.ok.inj (hsold.symm.trans hsales)
  obtain ⟨cause, htelling, rfl⟩ := fails_appendWork happend h
  rw [sales_eq_ok hsales] at htelling
  rcases fails_events_lineEntries (Or.inr rfl) hquantities rfl hstock htelling with
    ⟨rfl, productId, hmoved, hbeyond⟩ | ⟨rfl, productId, hmoved, hbeyond⟩
  · rw [neg_one_mul] at hbeyond
    exact .sold hmoved hbeyond
  · rw [neg_one_mul, ← sub_eq_add_neg] at hbeyond
    exact .left hmoved hbeyond

/-- A draft whose attempt is claimed fails only for want of stock or because of a sum. -/
theorem setback_of_fails (hwins : Wins OrderReceipt settings placingScope d.order.attemptId
      (payloadOf d.receipt) call s u)
    (hinserts : Inserts settings call d u)
    (hquantities : ∀ l ∈ d.lines, 0 < l.quantity ∧ l.quantity ≤ 999)
    (hstock : ∀ productId, u.stockOf productId = .ok (stock productId))
    (h : (placeWork settings call d).Fails s f) : Setback settings.policy d stock f := by
  rw [placeWork, fails_bind] at h
  rcases h with hclaim | ⟨answer, v, hclaim, h⟩
  · exact absurd hclaim hwins.not_fails
  obtain ⟨rfl, rfl⟩ := hwins.unique hclaim
  simp only at h
  split at h
  · next hpolicy =>
      simp only [fails_bind, fails_pure, and_false, exists_false, or_false] at h
      rcases h with hcheck | ⟨_, w, hcheck, hwrite⟩
      · rcases fails_checkStock hquantities hstock hcheck with
          ⟨productId, hlacks, rfl⟩ | ⟨rfl, productId, hmoved, hbeyond⟩
        · exact .short hpolicy hlacks
        · exact .needed hpolicy hmoved hbeyond
      · obtain rfl := yields_checkStock hcheck
        exact hinserts.setback hquantities hstock hwrite _
  · simp only [fails_bind, fails_pure, and_false, exists_false, or_false] at h
    exact hinserts.setback hquantities hstock h _

end Placing

section Paying

/-- The payments are inserted on `s`, and then one order, which is pending, becomes paid. -/
structure SettlesOne (settings : Settings) (call : Call) (orderId : String) (tenders : List Tender)
    (o : Order) (s : Store) : Prop where
  payments : (Store.insertPayments (paymentsBy settings call orderId tenders)).Yields s ()
    { s with payments := s.payments ++ paymentsBy settings call orderId tenders }
  order : ∃ first rest, s.orders = first ++ o :: rest ∧
    (∀ other ∈ first ++ rest, other.id ≠ orderId) ∧
    (Store.transition orderId .pending .paid call.now : Work ShopError Bool).Yields
      { s with payments := s.payments ++ paymentsBy settings call orderId tenders } true
      { s with
        orders := first ++ { o with status := .paid, updatedAt := call.now } :: rest
        payments := s.payments ++ paymentsBy settings call orderId tenders }

variable {orderId : String} {tenders : List Tender} {o : Order}

/-- Where ids are distinct, a change of status changes one row. -/
theorem orders_withStatus {source : Status} (target : Status) (now : Time.Instant)
    (hids : (s.orders.map (·.id)).Nodup) (hfound : s.order? orderId = some o)
    (hstatus : o.status = source) :
    ∃ first rest, s.orders = first ++ o :: rest ∧
      (∀ other ∈ first ++ rest, other.id ≠ orderId) ∧
      (s.withStatus orderId source target now).orders =
        first ++ { o with status := target, updatedAt := now } :: rest := by
  obtain ⟨hmem, hid⟩ := Store.order?_eq_some hfound
  obtain ⟨first, rest, hsplit⟩ := List.append_of_mem hmem
  have hothers : ∀ other ∈ first ++ rest, other.id ≠ orderId := by
    rw [hsplit, List.map_append, List.map_cons, List.nodup_middle, List.nodup_cons] at hids
    intro other hother heq
    refine hids.1 ?_
    rw [hid, ← heq, ← List.map_append]
    exact List.mem_map_of_mem hother
  refine ⟨first, rest, hsplit, hothers, ?_⟩
  have hkept (rows : List Order) (hrows : ∀ other ∈ rows, other.id ≠ orderId) :
      (rows.map fun other => if other.id == orderId && other.status == source then
        { other with status := target, updatedAt := now } else other) = rows := by
    conv_rhs => rw [← List.map_id rows]
    apply List.map_congr_left
    intro other hother
    simp [hrows other hother]
  rw [Store.withStatus, hsplit, List.map_append, List.map_cons,
    hkept first fun other hother => hothers other (List.mem_append_left _ hother),
    hkept rest fun other hother => hothers other (List.mem_append_right _ hother)]
  simp [hid, hstatus]

theorem settlesOne_of_fresh (settings : Settings) (htenders : checkTenders tenders = .ok ())
    (hids : (s.orders.map (·.id)).Nodup) (hfound : s.order? orderId = some o)
    (hpending : o.status = .pending) (hfresh : call.IsFresh s) :
    SettlesOne settings call orderId tenders o s := by
  obtain ⟨hmem, hid⟩ := Store.order?_eq_some hfound
  refine ⟨yields_insertPaymentsBy settings htenders hfresh
    (Store.hasOrder_eq_true.mpr ⟨o, hmem, hid⟩), ?_⟩
  obtain ⟨first, rest, hsplit, hothers, hmoved⟩ :=
    orders_withStatus .paid call.now hids hfound hpending
  refine ⟨first, rest, hsplit, hothers, ?_⟩
  have hin : s.isIn orderId .pending = true := Store.isIn_eq_true.mpr ⟨o, hmem, hid, hpending⟩
  rw [Store.yields_transition, if_pos rfl, ← hmoved]
  exact ⟨hin.symm, rfl⟩

end Paying

end Shop

namespace Run

/-- Whatever settings a shop has on a store that a run has led to, a call with fresh ids never
writes a row that the rules of its table refuse. An order that was priced against the catalog of
any run, and whose attempt is claimed, is inserted with its lines and its entries; from then on
its transaction fails only for want of stock or because of a sum, and so does the whole call
that priced it. The payments of a pending order are inserted, one order becomes paid, and the
transaction is committed. -/
theorem rows_are_never_refused {opened : Settings} {turns : List Turn} {reached shop : Shop}
    (hrun : Run opened turns reached) (hstore : shop.store = reached.store) {call : Call}
    (hfresh : call.IsFresh shop.store) :
    let stock (productId : String) := (StockEntry.deltasOf shop.store.entries productId).sum
    (∀ {sooner : Settings} {earlier : List Turn} {before : Shop} {r : OrderRequest} {d : Draft}
        {u : Store}, Run sooner earlier before →
      Shop.priceDraft before.store call r = .ok d →
      Shop.Wins OrderReceipt shop.settings placingScope r.attemptId (payloadOf d.receipt) call
        shop.store u →
      Shop.Inserts shop.settings call d u ∧
      ∀ f, (shop.commit (Shop.placeWork shop.settings call d)).1 = .error f →
        Shop.Setback shop.settings.policy d stock f) ∧
    (∀ {r : OrderRequest} {d : Draft} {u : Store},
      Shop.earlierPlacing shop.store call r = .ok none →
      Shop.priceDraft shop.store call r = .ok d →
      Shop.Wins OrderReceipt shop.settings placingScope r.attemptId (payloadOf d.receipt) call
        shop.store u →
      ∀ f, (shop.place call r).1 = .error f → Shop.Setback shop.settings.policy d stock f) ∧
    ∀ {orderId : String} {tenders : List Tender} {key : Option String} {o : Order} {u : Store},
      Shop.checkTenders tenders = .ok () →
      Shop.Wins PaymentReceipt shop.settings payingScope key [] call shop.store u →
      u.order? orderId = some o → o.status = .pending →
      Shop.SettlesOne shop.settings call orderId tenders o u ∧
      ∃ receipt after, shop.commit (Shop.silently
        (Shop.payWork shop.settings call orderId tenders key)) = (.ok ⟨receipt, false⟩, after) := by
  intro stock
  have hplacing {sooner : Settings} {earlier : List Turn} {before : Shop} {r : OrderRequest}
      {d : Draft} {u : Store} (hearlier : Run sooner earlier before)
      (hprice : Shop.priceDraft before.store call r = .ok d)
      (hwins : Shop.Wins OrderReceipt shop.settings placingScope r.attemptId
        (payloadOf d.receipt) call shop.store u) :
      Shop.Inserts shop.settings call d u ∧
        ∀ f, (shop.commit (Shop.placeWork shop.settings call d)).1 = .error f →
          Shop.Setback shop.settings.policy d stock f := by
    obtain ⟨records, -, rfl⟩ := hwins.claims
    have hbuild := mapError_eq_ok.mp hprice
    have hsound := Draft.build_eq_ok hbuild
    have hinserts := Shop.inserts_of_fresh shop.settings hbuild
      (fun p hp => hearlier.prices_nonneg p (Store.mem_catalogOf hp)) (hfresh.remembering records)
    have hreadable := hrun.readable
    rw [← hstore] at hreadable
    rw [← hsound.attempt] at hwins
    exact ⟨hinserts, fun f hfailed => Shop.setback_of_fails hwins hinserts hsound.quantities
      hreadable.stockOf_eq (Shop.commit_error_iff.mp hfailed)⟩
  refine ⟨hplacing, ?_, ?_⟩
  · intro r d u hearlier hprice hwins f hfailed
    have hplace : shop.place call r = shop.commit (Shop.placeWork shop.settings call d) := by
      simp only [Shop.place, hearlier, hprice]
    rw [hplace] at hfailed
    rw [hstore] at hprice
    exact (hplacing hrun hprice hwins).2 f hfailed
  · intro orderId tenders key o u htenders hwins hfound hpending
    obtain ⟨records, hclaims, rfl⟩ := hwins.claims
    have hids := hrun.intact.orderIds
    rw [← hstore] at hids
    have hsettles := Shop.settlesOne_of_fresh (s := { shop.store with remembered := records })
      shop.settings htenders hids hfound hpending (hfresh.remembering records)
    obtain ⟨receipt, t, hsettle, -⟩ :=
      Shop.exists_settle call.now hfound hpending hsettles.payments
    obtain ⟨v, hwork⟩ := Shop.yields_payWork hclaims hsettle
    exact ⟨hsettles, receipt, _, Shop.commit_eq_ok.mpr
      ⟨[], v, Shop.transact_silently.mpr ⟨rfl, transact_of_commit hwork⟩, rfl⟩⟩

/-- Soup is counted and sold, and it is also served with a lunch. -/
def openTable : List (Call × Action) :=
  let noon : Time.Instant := ⟨20000, 43200, 0⟩
  [(Call.on 20000 'a', .addProduct ⟨"soup", "Soup", .simple, ⟨850⟩, true, noon, noon⟩),
   (Call.on 20000 'b', .addProduct ⟨"lunch", "Lunch", .menu, ⟨1200⟩, true, noon, noon⟩),
   (Call.on 20000 'c', .addSlot ⟨"main", "lunch", "Main", 1, ["soup"]⟩),
   (Call.on 20000 'd', .operate (.enter "soup" 3 .openingBalance "kitchen")),
   (Call.on 20000 'e', .operate (.place ⟨some "c-7", none, .pos, none, [⟨"soup", 1, []⟩]⟩))]

/-- Three lunches need more soup than is left, and that is all that stands in their way. The
order of the table is paid with two tenders. -/
theorem rows_of_openTable :
    let reached := (play Settings.standard openTable).2
    let shop : Shop := { reached with settings := { Settings.standard with policy := .refuse } }
    let call := Call.on 20000 'f'
    let r : OrderRequest :=
      ⟨some "c-7", none, .pos, some "till-1", [⟨"lunch", 3, [⟨"main", "soup"⟩]⟩]⟩
    let tenders : List Tender := [⟨.cash, ⟨500⟩⟩, ⟨.card, ⟨350⟩⟩]
    call.IsFresh shop.store ∧
    (∃ d u, Shop.priceDraft shop.store call r = .ok d ∧
      Shop.Wins OrderReceipt shop.settings placingScope r.attemptId (payloadOf d.receipt) call
        shop.store u ∧
      Shop.Inserts shop.settings call d u ∧
      Shop.Setback .refuse d
        (fun productId => (StockEntry.deltasOf shop.store.entries productId).sum)
        (.error (.insufficientStock "soup" 3 2))) ∧
    ∃ o u, Shop.Wins PaymentReceipt shop.settings payingScope (some "till-1") [] call shop.store u ∧
      u.order? "e" = some o ∧ Shop.SettlesOne shop.settings call "e" tenders o u ∧
      ∃ receipt after, shop.commit (Shop.silently
        (Shop.payWork shop.settings call "e" tenders (some "till-1"))) =
          (.ok ⟨receipt, false⟩, after) := by
  intro reached shop call r tenders
  have hfresh : call.IsFresh shop.store := by
    apply Call.isFresh_on <;> decide +kernel
  have hfirst (scope : String) : Shop.IsFirst shop.settings call shop.store scope (some "till-1") :=
    ⟨fun _ _ => rfl, fun _ _ => rfl, fun _ _ => ⟨⟨20001, 0, 0⟩, by decide⟩⟩
  have hwins {α : Type} [Wire α] (scope : String) (payload : List UInt8) :
      ∃ u, Shop.Wins α shop.settings scope (some "till-1") payload call shop.store u ∧
        u.orders = shop.store.orders := by
    obtain ⟨records, hclaims⟩ := (hfirst scope).claims payload
    exact ⟨_, Shop.yields_claim_of_claims hclaims, rfl⟩
  obtain ⟨hplacing, hplace, hpaying⟩ := rows_are_never_refused
    (run_play Settings.standard openTable) (show shop.store = reached.store from rfl) hfresh
  refine ⟨hfresh, ?_, ?_⟩
  · have hpriced : (Shop.priceDraft shop.store call r).map (fun _ => ()) = .ok () := by
      decide +kernel
    obtain ⟨d, hprice, -⟩ := map_eq_ok.mp hpriced
    obtain ⟨u, hwon, -⟩ := hwins (α := OrderReceipt) placingScope (payloadOf d.receipt)
    have hshort : (shop.place call r).1 =
        .error (.error (.insufficientStock "soup" 3 2)) := by
      decide +kernel
    exact ⟨d, u, hprice, hwon, (hplacing (run_play Settings.standard openTable) hprice hwon).1,
      hplace rfl hprice hwon _ hshort⟩
  · obtain ⟨u, hwon, horders⟩ := hwins (α := PaymentReceipt) payingScope []
    have hstatus : shop.store.statusOf "e" = some .pending := by decide +kernel
    obtain ⟨o, hfound, hpending⟩ := Option.map_eq_some_iff.mp hstatus
    have hfound : u.order? "e" = some o := by rwa [Store.order?, horders]
    exact ⟨o, u, hwon, hfound, hpaying (by decide) hwon hfound hpending⟩

end Run

end OrderLedger
