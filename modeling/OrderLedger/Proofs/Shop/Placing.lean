import OrderLedger.Proofs.Order.Drafts
import OrderLedger.Proofs.Shop.Basic
import OrderLedger.Proofs.Shop.LineEntries

/-!
The transaction of a call that places an order. It writes the draft with its lines and
its sales, or another call holds the attempt and nothing is written.
-/

namespace OrderLedger.Shop

open Work Calculation

variable {settings : Settings} {call : Call} {s t : Store}

/-- The draft is written with its lines and its sales, and its attempt is claimed. -/
structure Placed (settings : Settings) (call : Call) (d : Draft) (s t : Store) : Prop where
  newOrder : s.hasOrder d.order.id = false
  rules : ∀ l ∈ d.lines, Store.brokenRule? l = none
  newLines : (s.lines.map (·.id)).Nodup → ((s.lines ++ d.lines).map (·.id)).Nodup
  sold : ∃ es, sales settings call d = .ok es
  after : ∃ records,
    Claims settings Remembered.placingScope d.order.attemptId (Remembered.payloadOf d.receipt)
      call.now s records ∧
    t = { s with
      orders := s.orders ++ [d.order]
      lines := s.lines ++ d.lines
      entries := s.entries ++ lineEntries settings call.now
        (fun n => call.ids (d.lines.length + 1 + n)) d.order.id .sale (-1) d.lines
      remembered := records }

/-- The check of the stock writes nothing. -/
theorem yields_checkStock {d : Draft} {u : Unit} (h : (checkStock d).Yields s u t) : t = s := by
  simp only [checkStock, yields_bind, yields_calculate, yields_stored, yields_ask] at h
  obtain ⟨_, _, ⟨-, rfl⟩, _, _, ⟨-, rfl⟩, h⟩ := h
  split at h
  · exact absurd h yields_fail
  · exact (yields_pure.mp h).2

/-- An order that is written is new, and so are its lines; its sales follow. -/
theorem yields_writeOrder {d : Draft} {events : List StockEvent}
    (h : (writeOrder settings call d).Yields s events t) :
    s.hasOrder d.order.id = false ∧ (∀ l ∈ d.lines, Store.brokenRule? l = none) ∧
      ((s.lines.map (·.id)).Nodup → ((s.lines ++ d.lines).map (·.id)).Nodup) ∧
      ∃ es, sales settings call d = .ok es ∧ (Store.events es call.now).Yields t events t ∧
        t = { s with
          orders := s.orders ++ [d.order]
          lines := s.lines ++ d.lines
          entries := s.entries ++ es } := by
  simp only [writeOrder, yields_bind, yields_stored, yields_execute, yields_calculate,
    Store.insertOrder_eq_ok] at h
  obtain ⟨_, _, ⟨-, hnew, rfl⟩, _, _, hlines, es, _, ⟨hsales, rfl⟩, happend⟩ := h
  obtain ⟨rfl, hadmits⟩ := Store.yields_insertLines.mp hlines
  obtain ⟨hrules, hnodup⟩ := hadmits.rows
  obtain ⟨rfl, hevents⟩ := yields_appendWork happend
  exact ⟨hnew, fun l hl => (hrules l hl).1, hnodup, es, hsales, hevents, rfl⟩

theorem transact_placeWork {d : Draft} {o : Outcome OrderReceipt} {events : List StockEvent}
    (h : transact (placeWork settings call d) s = (.ok (o, events), t)) :
    (o = ⟨d.receipt, false⟩ ∧ Placed settings call d s t ∧
      ∃ es, sales settings call d = .ok es ∧ (Store.events es call.now).Yields t events t) ∨
    (Lost Remembered.placingScope d.order.attemptId call.now s o ∧ events = [] ∧ t = s) := by
  obtain ⟨closing, u, hwork, hkept⟩ := transact_eq_ok.mp h
  simp only [placeWork, yields_bind] at hwork
  obtain ⟨answer, v, hclaim, hwork⟩ := hwork
  rcases yields_claim hclaim with ⟨rfl, records, hrecords, rfl⟩ | ⟨o', rfl, hlost, rfl⟩
  · have hwrite : ∃ told, (writeOrder settings call d).Yields { s with remembered := records }
        told u ∧ closing = .commit (⟨d.receipt, false⟩, told) := by
      simp only at hwork
      split at hwork
      · simp only [yields_bind, yields_pure] at hwork
        obtain ⟨_, w, hcheck, told, _, hwrite, hclosing, rfl⟩ := hwork
        rw [yields_checkStock hcheck] at hwrite
        exact ⟨told, hwrite, hclosing⟩
      · simp only [yields_bind, yields_pure] at hwork
        obtain ⟨told, _, hwrite, hclosing, rfl⟩ := hwork
        exact ⟨told, hwrite, hclosing⟩
    obtain ⟨told, hwrite, rfl⟩ := hwrite
    cases hkept
    obtain ⟨hnew, hrules, hnodup, es, hsales, hevents, ht⟩ := yields_writeOrder hwrite
    refine Or.inl ⟨rfl, ⟨hnew, hrules, hnodup, ⟨es, hsales⟩, records, hrecords, ?_⟩, es, hsales,
      hevents⟩
    rw [ht, sales_eq_ok hsales]
  · obtain ⟨rfl, rfl⟩ := yields_pure.mp hwork
    cases hkept
    exact Or.inr ⟨hlost, rfl, rfl⟩

/-- A call that answers has placed the order of its draft, or it gives the answer that the
record of its attempt holds and writes nothing. -/
theorem place_eq_ok {shop after : Shop} {r : OrderRequest} {o : Outcome OrderReceipt}
    (h : shop.place call r = (.ok o, after)) :
    (∃ d, priceDraft shop.store call r = .ok d ∧ o = ⟨d.receipt, false⟩ ∧
      Placed shop.settings call d shop.store after.store) ∨
    (∃ now, Lost Remembered.placingScope r.attemptId now shop.store o ∧
      after.store = shop.store) := by
  unfold place at h
  split at h
  · cases h
  · next earlier hearlier =>
      cases h
      obtain ⟨_, -, hlost⟩ := bind_eq_ok.mp hearlier
      exact Or.inr ⟨call.lookedUpAt, earlier?_eq_some hlost, rfl⟩
  · split at h
    · cases h
    · next d hprice =>
        obtain ⟨events, t, htransact, rfl⟩ := commit_eq_ok.mp h
        rcases transact_placeWork htransact with ⟨rfl, hplaced, -⟩ | ⟨hlost, -, rfl⟩
        · exact Or.inl ⟨d, hprice, rfl, hplaced⟩
        · rw [(Draft.build_eq_ok (mapError_eq_ok.mp hprice)).attempt] at hlost
          exact Or.inr ⟨call.now, hlost, rfl⟩

end OrderLedger.Shop
