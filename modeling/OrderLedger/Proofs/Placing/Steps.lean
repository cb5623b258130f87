import OrderLedger.Proofs.Placing.Attempts

/-!
All that one step of a call can do. It writes only in the transaction that places its own
order, and an outcome that it has reached stays.
-/

namespace OrderLedger

open Work Calculation Remembered

namespace Client

/-- What holds of a call on its way: its draft is one of its request and survives the wire,
and it publishes nothing that it has not written. -/
structure IsSound (c : Client) : Prop where
  timed : c.call.pricedAt.IsValid
  priced : ∀ d, c.stage = .priced d →
    d.order.attemptId = c.request.attemptId ∧ Wire.Survives d.receipt
  closed : ∀ o events, c.stage = .closed o events → o.replayed = true → events = []

/-- The step of a call, by the client and the shop after it. -/
inductive Stepped (c : Client) (shop : Shop) : Client → Shop → Prop where
  /-- The call goes on, or it fails. -/
  | advances {stage : Stage} (hbefore : c.stage.outcome? = none) (hafter : stage.outcome? = none)
      (hpriced : ∀ d, stage = .priced d → Draft.Sound (shop.store.catalogOf c.request.productIds)
        c.call.pricedAt c.call.ids c.request d) :
      Stepped c shop { c with stage } shop
  | replays {stage : Stage} {o : Outcome OrderReceipt} {t : Time.Instant}
      (hbefore : c.stage.outcome? = none)
      (hafter : stage = .answered (.ok o) ∨ stage = .closed o []) (ht : t ∈ c.readings)
      (hlost : Shop.Lost placingScope c.request.attemptId t shop.store o) :
      Stepped c shop { c with stage } shop
  | places {d : Draft} {s : Store} {events : List StockEvent} (hbefore : c.stage = .priced d)
      (hplaced : Shop.Placed shop.settings c.call d shop.store s) :
      Stepped c shop { c with stage := .closed ⟨d.receipt, false⟩ events }
        { shop with store := s }
  | publishes {o : Outcome OrderReceipt} {events : List StockEvent}
      (hbefore : c.stage = .closed o events) :
      Stepped c shop { c with stage := .answered (.ok o) }
        { shop with feed := shop.feed.publishAll events }
  | rests {answer : Except (Fault ShopError) (Outcome OrderReceipt)}
      (hbefore : c.stage = .answered answer) : Stepped c shop c shop

variable {c c' : Client} {shop shop' : Shop}

theorem Stepped.fails (hbefore : c.stage.outcome? = none) (f : Fault ShopError) :
    Stepped c shop { c with stage := .answered (.error f) } shop := by
  apply Stepped.advances hbefore rfl
  intro d hpriced
  cases hpriced

theorem search_stepped (hstage : c.stage = .arrived) :
    Stepped c shop { c with stage := c.search shop.store } shop := by
  have hbefore : c.stage.outcome? = none := by
    rw [hstage]
    rfl
  unfold search
  split
  · exact .fails hbefore _
  · next o hearlier =>
      obtain ⟨_, -, hlost⟩ := bind_eq_ok.mp hearlier
      refine .replays hbefore (Or.inl rfl) ?_ (Shop.earlier?_eq_some hlost)
      rw [readings, hstage]
      exact List.mem_cons_self
  · apply Stepped.advances hbefore rfl
    intro d hpriced
    cases hpriced

theorem price_stepped (hstage : c.stage = .searched) :
    Stepped c shop { c with stage := c.price shop.store } shop := by
  have hbefore : c.stage.outcome? = none := by
    rw [hstage]
    rfl
  unfold price
  split
  · exact .fails hbefore _
  · next d hprice =>
      refine .advances hbefore rfl ?_
      rintro _ ⟨⟩
      exact Draft.build_eq_ok (mapError_eq_ok.mp hprice)

theorem step_stepped (hc : c.IsSound) (shop : Shop) :
    Stepped c shop (c.step shop).1 (c.step shop).2 := by
  unfold step
  split
  · next hstage => exact search_stepped hstage
  · next hstage => exact price_stepped hstage
  · next d hstage =>
      have hbefore : c.stage.outcome? = none := by
        rw [hstage]
        rfl
      split
      · next o events t htransact =>
          rcases Shop.transact_placeWork htransact with ⟨rfl, hplaced, -⟩ | ⟨hlost, rfl, rfl⟩
          · exact .places hstage hplaced
          · refine .replays hbefore (Or.inr rfl) ?_ ((hc.priced d hstage).1 ▸ hlost)
            rw [readings, hstage]
            exact List.mem_cons_self
      · next f t htransact =>
          rw [transact_eq_error htransact]
          exact .fails hbefore f
  · next hstage => exact .publishes hstage
  · next hstage => exact .rests hstage

namespace Stepped

theorem call_eq (h : Stepped c shop c' shop') : c'.call = c.call ∧ c'.request = c.request := by
  cases h <;> exact ⟨rfl, rfl⟩

theorem isSound (h : Stepped c shop c' shop') (hc : c.IsSound)
    (hprices : ∀ p ∈ shop.store.products, Word.Fits p.price.cents) : c'.IsSound := by
  refine ⟨by rw [h.call_eq.1]; exact hc.timed, ?_, ?_⟩
  · intro d hstage
    cases h with
    | advances _ _ hpriced =>
        have hsound := hpriced d hstage
        refine ⟨hsound.attempt, hsound.survives hc.timed ?_⟩
        intro p hp
        exact hprices p (Store.mem_catalogOf hp)
    | replays _ hafter =>
        rcases hafter with rfl | rfl <;> cases hstage
    | places => cases hstage
    | publishes => cases hstage
    | rests => exact hc.priced d hstage
  · intro o events hstage hreplayed
    cases h with
    | advances _ hafter =>
        cases hstage
        cases hafter
    | replays _ hafter =>
        rcases hafter with rfl | rfl <;> cases hstage
        rfl
    | places =>
        cases hstage
        cases hreplayed
    | publishes => cases hstage
    | rests => exact hc.closed o events hstage hreplayed

theorem products_eq (h : Stepped c shop c' shop') :
    shop'.store.products = shop.store.products := by
  cases h with
  | places _ hplaced =>
      obtain ⟨records, -, rfl⟩ := hplaced.after
      rfl
  | _ => rfl

theorem outcome?_eq_some (h : Stepped c shop c' shop') {o : Outcome OrderReceipt}
    (ho : c.stage.outcome? = some o) : c'.stage.outcome? = some o := by
  cases h with
  | advances hbefore | replays hbefore =>
      rw [hbefore] at ho
      cases ho
  | places hbefore =>
      rw [hbefore] at ho
      cases ho
  | publishes hbefore =>
      rw [hbefore] at ho
      exact ho
  | rests => exact ho

/-- A step that changes the shop is one of a call whose outcome is its own. -/
theorem shop_eq (h : Stepped c shop c' shop') (hc : c.IsSound) :
    shop' = shop ∨ ∃ o, c'.stage.outcome? = some o ∧ o.replayed = false := by
  cases h with
  | advances | replays | rests => exact Or.inl rfl
  | places => exact Or.inr ⟨_, rfl, rfl⟩
  | @publishes o events hbefore =>
      cases hreplayed : o.replayed with
      | false => exact Or.inr ⟨o, rfl, hreplayed⟩
      | true =>
          rw [hc.closed o events hbefore hreplayed]
          exact Or.inl rfl

end Stepped

end Client

end OrderLedger
