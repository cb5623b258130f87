import OrderLedger.Proofs.Placing.Steps

/-!
An attempt places one order, whatever the order of the moves. At first the attempt is open;
the transaction of one of its calls takes it, and from then on the record of the attempt
answers every other call with the receipt of that order.
-/

namespace OrderLedger

open Work Calculation Remembered

namespace Moment

/-- The orders that a move inserts for an attempt. -/
def inserted (key : String) (m : Moment) : List Order :=
  Store.insertedFor key m.before.shop.store m.after.shop.store

/-- The transaction of the client in a place, a call of the attempt, writes the order of a
receipt with its lines and sales, and its answer is the receipt. -/
def Places (m : Moment) (key : String) (n : Nat) (receipt : OrderReceipt) : Prop :=
  m.move = .step n ∧ ∃ c d events, m.before.clients[n]? = some c ∧
    c.request.attemptId = some key ∧ d.receipt = receipt ∧
    Shop.Placed m.before.shop.settings c.call d m.before.shop.store m.after.shop.store ∧
    m.after.clients[n]? = some { c with stage := .closed ⟨receipt, false⟩ events }

/-- The move is none of another call that places an order for the attempt as a whole, its
prices fit in 64 bits, and it takes place before the record of the attempt expires. -/
structure IsRegular (key : String) (m : Moment) : Prop where
  fits : ∀ call action, m.move = .act call action → action.Fits
  others : ∀ call action, m.move = .act call action → ¬ action.PlacesFor key
  live : ∀ r, m.before.shop.store.remembered? placingScope key = some r →
    ∀ t ∈ m.readings, r.isLive t = true

end Moment

namespace Floor

variable {floor : Floor} {key : String} {receipt : OrderReceipt} {n winner : Nat} {c : Client}

/-- Prices fit in 64 bits, and the calls are on their way as they can be. -/
structure IsSound (floor : Floor) : Prop where
  prices : ∀ p ∈ floor.shop.store.products, Word.Fits p.price.cents
  clients : ∀ c ∈ floor.clients, c.IsSound

/-- Nothing is remembered for the attempt, and no call of it has an outcome. -/
structure Open (floor : Floor) (key : String) : Prop where
  record : floor.shop.store.remembered? placingScope key = none
  outcomes : ∀ c ∈ floor.clients, c.request.attemptId = some key → c.stage.outcome? = none

/-- A receipt is remembered for the attempt; every outcome of a call of the attempt has that
receipt, and it is a replay unless the call is the winner. -/
structure Taken (floor : Floor) (key : String) (receipt : OrderReceipt) (winner : Nat) : Prop where
  record : ∃ r, floor.shop.store.remembered? placingScope key = some r ∧
    valueOf? r.payload = some receipt
  outcomes : ∀ i c o, floor.clients[i]? = some c → c.request.attemptId = some key →
    c.stage.outcome? = some o → o.receipt = receipt ∧ (o.replayed = false → i = winner)

theorem move_step (hc : floor.clients[n]? = some c) :
    floor.move (.step n) = ⟨(c.step floor.shop).2, floor.clients.set n (c.step floor.shop).1⟩ := by
  simp only [move, hc]

theorem move_step_none (hc : floor.clients[n]? = none) : floor.move (.step n) = floor := by
  simp only [move, hc]

theorem IsSound.move {m : Move} (h : floor.IsSound)
    (hfits : ∀ call action, m = .act call action → action.Fits) : (floor.move m).IsSound := by
  cases m with
  | step n =>
      cases hc : floor.clients[n]? with
      | none =>
          rw [move_step_none hc]
          exact h
      | some c =>
          have hsound := h.clients c (List.mem_of_getElem? hc)
          have hstep := Client.step_stepped hsound floor.shop
          rw [move_step hc]
          refine ⟨?_, ?_⟩
          · change ∀ p ∈ (c.step floor.shop).2.store.products, Word.Fits p.price.cents
            rw [hstep.products_eq]
            exact h.prices
          · intro c' hc'
            rcases List.mem_or_eq_of_mem_set hc' with hold | rfl
            · exact h.clients c' hold
            · exact hstep.isSound hsound h.prices
  | act call action =>
      have heffect := (Shop.act_effect call action floor.shop).2
      exact ⟨heffect.prices (hfits call action rfl) h.prices, h.clients⟩

/-- After a step of one call, every call is the one that has stepped or the one it was. -/
theorem clients_set_cases {c' x : Client} {i : Nat}
    (hx : (floor.clients.set n c')[i]? = some x) :
    (i = n ∧ x = c') ∨ floor.clients[i]? = some x := by
  rw [List.getElem?_set] at hx
  split at hx
  · next hi =>
      split at hx
      · cases hx
        exact Or.inl ⟨hi.symm, rfl⟩
      · cases hx
  · exact Or.inr hx

theorem Open.of_step (h : floor.Open key) {shop' : Shop} {c' : Client}
    (hrecord : shop'.store.remembered? placingScope key = none)
    (hc' : c'.request.attemptId = some key → c'.stage.outcome? = none) :
    Open ⟨shop', floor.clients.set n c'⟩ key := by
  refine ⟨hrecord, ?_⟩
  intro x hx hkey
  rcases List.mem_or_eq_of_mem_set hx with hold | rfl
  · exact h.outcomes x hold hkey
  · exact hc' hkey

theorem Taken.of_step (h : floor.Taken key receipt winner) {shop' : Shop} {c' : Client}
    (hrecord : shop'.store.remembered? placingScope key =
      floor.shop.store.remembered? placingScope key)
    (hc' : c'.request.attemptId = some key → ∀ o, c'.stage.outcome? = some o →
      o.receipt = receipt ∧ (o.replayed = false → n = winner)) :
    Taken ⟨shop', floor.clients.set n c'⟩ key receipt winner := by
  refine ⟨by rw [hrecord]; exact h.record, ?_⟩
  intro i x o hx hkey ho
  rcases clients_set_cases hx with ⟨rfl, rfl⟩ | hx
  · exact hc' hkey o ho
  · exact h.outcomes i x o hx hkey ho

/-- The step of a call while the attempt is open: the attempt stays open, or the call takes
it with its own order. -/
theorem Open.stepped (h : floor.Open key) (hsound : floor.IsSound)
    (hc : floor.clients[n]? = some c) {c' : Client} {shop' : Shop}
    (hstep : Client.Stepped c floor.shop c' shop') :
    (Open ⟨shop', floor.clients.set n c'⟩ key ∧
      Store.insertedFor key floor.shop.store shop'.store = []) ∨
    ∃ d events, c.request.attemptId = some key ∧
      Shop.Placed floor.shop.settings c.call d floor.shop.store shop'.store ∧
      c' = { c with stage := .closed ⟨d.receipt, false⟩ events } ∧
      Taken ⟨shop', floor.clients.set n c'⟩ key d.receipt n ∧
      Store.insertedFor key floor.shop.store shop'.store = [d.order] := by
  have hmem := List.mem_of_getElem? hc
  have hnone := h.outcomes c hmem
  have hsame := Store.insertedFor_self key floor.shop.store
  cases hstep with
  | advances _ hafter => exact Or.inl ⟨h.of_step h.record fun _ => hafter, hsame⟩
  | replays _ _ _ hlost =>
      refine Or.inl ⟨h.of_step h.record ?_, hsame⟩
      intro hkey
      obtain ⟨k, r, hk, hlive, -⟩ := hlost
      rw [hkey, Option.some.injEq] at hk
      rw [← hk, Store.live?_of_remembered?_none h.record] at hlive
      cases hlive
  | @places d t events hbefore hplaced =>
      obtain ⟨hattempt, hsurvives⟩ := (hsound.clients c hmem).priced d hbefore
      obtain ⟨records, hclaims, ht⟩ := hplaced.after
      have hrecords : t.remembered = records := by rw [ht]
      by_cases hkey : c.request.attemptId = some key
      · rw [hkey] at hattempt
        rw [hattempt] at hclaims
        obtain ⟨r, hr, hpayload⟩ := hclaims.remembered?_self h.record hrecords
        refine Or.inr ⟨d, events, hkey, hplaced, rfl, ⟨⟨r, hr, ?_⟩, ?_⟩, ?_⟩
        · rw [hpayload, valueOf?_payloadOf hsurvives]
        · intro i x o hx hxkey ho
          rcases clients_set_cases hx with ⟨rfl, rfl⟩ | hx
          · cases ho
            exact ⟨rfl, fun _ => rfl⟩
          · rw [h.outcomes x (List.mem_of_getElem? hx) hxkey] at ho
            cases ho
        · exact hplaced.insertedFor.trans (if_pos hattempt)
      · have hne : d.order.attemptId ≠ some key := by rwa [hattempt]
        refine Or.inl ⟨h.of_step ?_ fun hk => absurd hk hkey, ?_⟩
        · exact (hclaims.remembered?_other (Or.inr hne) hrecords).trans h.record
        · exact hplaced.insertedFor.trans (if_neg hne)
  | publishes hbefore =>
      refine Or.inl ⟨h.of_step h.record ?_, hsame⟩
      intro hkey
      have hopen := hnone hkey
      rw [hbefore] at hopen
      cases hopen
  | rests => exact Or.inl ⟨h.of_step h.record hnone, hsame⟩

/-- The step of a call after the attempt was taken: every call of the attempt is answered
from the record. -/
theorem Taken.stepped (h : floor.Taken key receipt winner) (hsound : floor.IsSound)
    (hc : floor.clients[n]? = some c) {c' : Client} {shop' : Shop}
    (hstep : Client.Stepped c floor.shop c' shop')
    (hlive : ∀ r, floor.shop.store.remembered? placingScope key = some r →
      ∀ t ∈ c.readings, r.isLive t = true) :
    Taken ⟨shop', floor.clients.set n c'⟩ key receipt winner ∧
      Store.insertedFor key floor.shop.store shop'.store = [] := by
  have hmem := List.mem_of_getElem? hc
  have hsame := Store.insertedFor_self key floor.shop.store
  obtain ⟨r, hrecord, hvalue⟩ := h.record
  have hread {t : Time.Instant} (ht : t ∈ c.readings) :
      floor.shop.store.live? placingScope key t = some r :=
    Store.live?_of_remembered? hrecord (hlive r hrecord t ht)
  cases hstep with
  | advances _ hafter =>
      refine ⟨h.of_step rfl ?_, hsame⟩
      intro _ o ho
      rw [hafter] at ho
      cases ho
  | @replays stage told t _ hafter ht hlost =>
      refine ⟨h.of_step rfl ?_, hsame⟩
      intro hkey o ho
      have htold : o = told := by
        rcases hafter with rfl | rfl <;> cases ho <;> rfl
      subst htold
      obtain ⟨k, r', hk, hfound, hreplay⟩ := hlost
      rw [hkey, Option.some.injEq] at hk
      rw [← hk, hread ht, Option.some.injEq] at hfound
      subst hfound
      obtain ⟨htold, hreplayed⟩ := Shop.replay_eq_ok.mp hreplay
      rw [hvalue, Option.some.injEq] at htold
      refine ⟨htold.symm, ?_⟩
      intro hfresh
      rw [hreplayed] at hfresh
      cases hfresh
  | @places d t events hbefore hplaced =>
      obtain ⟨hattempt, -⟩ := (hsound.clients c hmem).priced d hbefore
      obtain ⟨records, hclaims, ht⟩ := hplaced.after
      have hrecords : t.remembered = records := by rw [ht]
      have hne : d.order.attemptId ≠ some key := by
        intro hkey
        rw [hkey] at hclaims
        obtain ⟨_, -, hfree, -⟩ := hclaims
        have hnow : c.call.now ∈ c.readings := by
          rw [Client.readings, hbefore]
          exact List.mem_cons_self
        rw [hread hnow] at hfree
        cases hfree
      refine ⟨h.of_step (hclaims.remembered?_other (Or.inr hne) hrecords) ?_, ?_⟩
      · intro hkey
        exact absurd (hattempt.trans hkey) hne
      · exact hplaced.insertedFor.trans (if_neg hne)
  | publishes hbefore =>
      refine ⟨h.of_step rfl ?_, hsame⟩
      intro hkey o ho
      exact h.outcomes n c o hc hkey (by rw [hbefore]; exact ho)
  | rests => exact ⟨h.of_step rfl fun hkey o ho => h.outcomes n c o hc hkey ho, hsame⟩

/-- A move while the attempt is open leaves it open, or one of its calls takes it. -/
theorem Open.move (h : floor.Open key) (hsound : floor.IsSound) {m : Move}
    (hregular : Moment.IsRegular key ⟨floor, m⟩) :
    ((floor.move m).Open key ∧ Moment.inserted key ⟨floor, m⟩ = []) ∨
    ∃ receipt winner, (floor.move m).Taken key receipt winner ∧
      Moment.Places ⟨floor, m⟩ key winner receipt ∧
      Moment.inserted key ⟨floor, m⟩ = [receipt.order] := by
  cases m with
  | step n =>
      unfold Moment.inserted Moment.Places Moment.after
      cases hc : floor.clients[n]? with
      | none =>
          rw [move_step_none hc]
          exact Or.inl ⟨h, Store.insertedFor_self key floor.shop.store⟩
      | some c =>
          have hstep := Client.step_stepped (hsound.clients c (List.mem_of_getElem? hc)) floor.shop
          rw [move_step hc]
          rcases h.stepped hsound hc hstep with
            hopen | ⟨d, events, hkey, hplaced, heq, htaken, hone⟩
          · exact Or.inl hopen
          · have hn : n < floor.clients.length := (List.getElem?_eq_some_iff.mp hc).1
            refine Or.inr ⟨d.receipt, n, htaken,
              ⟨rfl, c, d, events, hc, hkey, rfl, hplaced, ?_⟩, hone⟩
            rw [heq]
            exact List.getElem?_set_self hn
  | act call action =>
      have hattempt := (Shop.act_effect call action floor.shop).2.attempt
        (hregular.others call action rfl) fun r hr => by
          rw [h.record] at hr
          cases hr
      exact Or.inl ⟨⟨hattempt.1.trans h.record, h.outcomes⟩, hattempt.2⟩

/-- An attempt that was taken stays taken, by the same call and with the same receipt. -/
theorem Taken.move (h : floor.Taken key receipt winner) (hsound : floor.IsSound) {m : Move}
    (hregular : Moment.IsRegular key ⟨floor, m⟩) :
    (floor.move m).Taken key receipt winner ∧ Moment.inserted key ⟨floor, m⟩ = [] := by
  cases m with
  | step n =>
      unfold Moment.inserted Moment.after
      cases hc : floor.clients[n]? with
      | none =>
          rw [move_step_none hc]
          exact ⟨h, Store.insertedFor_self key floor.shop.store⟩
      | some c =>
          have hstep := Client.step_stepped (hsound.clients c (List.mem_of_getElem? hc)) floor.shop
          have hlive := hregular.live
          simp only [Moment.readings, hc, Option.elim_some] at hlive
          rw [move_step hc]
          exact h.stepped hsound hc hstep hlive
  | act call action =>
      have hattempt := (Shop.act_effect call action floor.shop).2.attempt
        (hregular.others call action rfl) fun r hr =>
          hregular.live r hr call.now (by simp [Moment.readings])
      refine ⟨⟨?_, h.outcomes⟩, hattempt.2⟩
      obtain ⟨r, hr, hvalue⟩ := h.record
      exact ⟨r, hattempt.1.trans hr, hvalue⟩

theorem Taken.after (h : floor.Taken key receipt winner) (hsound : floor.IsSound)
    {moves : List Move} (hregular : ∀ m ∈ floor.trace moves, m.IsRegular key) :
    (floor.after moves).Taken key receipt winner ∧
      ∀ m ∈ floor.trace moves, m.inserted key = [] := by
  induction moves generalizing floor with
  | nil => exact ⟨h, List.forall_mem_nil _⟩
  | cons m moves ih =>
      rw [trace, List.forall_mem_cons] at hregular ⊢
      have hmove := h.move hsound hregular.1
      obtain ⟨hafter, hnone⟩ := ih hmove.1 (hsound.move hregular.1.fits) hregular.2
      exact ⟨hafter, hmove.2, hnone⟩

/-- Over any moves an open attempt stays open, or one of its calls takes it, and its order
is the only one that is inserted. -/
theorem Open.after (h : floor.Open key) (hsound : floor.IsSound) {moves : List Move}
    (hregular : ∀ m ∈ floor.trace moves, m.IsRegular key) :
    ((floor.after moves).Open key ∧ ∀ m ∈ floor.trace moves, m.inserted key = []) ∨
    ∃ receipt winner, (floor.after moves).Taken key receipt winner ∧
      (∃ m ∈ floor.trace moves, m.Places key winner receipt) ∧
      (floor.trace moves).flatMap (Moment.inserted key) = [receipt.order] ∧
      ∀ m ∈ floor.trace moves, m.inserted key ≠ [] →
        m.Places key winner receipt ∧ m.inserted key = [receipt.order] := by
  induction moves generalizing floor with
  | nil => exact Or.inl ⟨h, List.forall_mem_nil _⟩
  | cons m moves ih =>
      rw [trace, List.forall_mem_cons] at hregular
      simp only [trace, List.forall_mem_cons, List.exists_mem_cons_iff, List.flatMap_cons]
      have hnext := hsound.move hregular.1.fits
      rcases h.move hsound hregular.1 with ⟨hopen, hnone⟩ | ⟨receipt, winner, htaken, hplaces, hone⟩
      · rcases ih hopen hnext hregular.2 with
          ⟨hafter, hrest⟩ | ⟨receipt, winner, hafter, hplaces, hone, honly⟩
        · exact Or.inl ⟨hafter, hnone, hrest⟩
        · refine Or.inr ⟨receipt, winner, hafter, Or.inr hplaces, ?_, ?_, honly⟩
          · rw [hnone, List.nil_append, hone]
          · intro hsome
            exact absurd hnone hsome
      · obtain ⟨hafter, hrest⟩ := htaken.after hnext hregular.2
        refine Or.inr ⟨receipt, winner, hafter, Or.inl hplaces, ?_, fun _ => ⟨hplaces, hone⟩, ?_⟩
        · rw [hone, List.flatMap_eq_nil_iff.mpr hrest, List.append_nil]
        · intro m hm hsome
          exact absurd (hrest m hm) hsome

/-- An outcome that a call has reached is the one that it ends with. -/
theorem outcome?_after (hsound : floor.IsSound) {moves : List Move}
    (hfits : ∀ m ∈ floor.trace moves, ∀ call action, m.move = .act call action → action.Fits)
    {o : Outcome OrderReceipt} (hc : floor.clients[n]? = some c)
    (ho : c.stage.outcome? = some o) :
    ∃ c', (floor.after moves).clients[n]? = some c' ∧ c'.stage.outcome? = some o := by
  induction moves generalizing floor c with
  | nil => exact ⟨c, hc, ho⟩
  | cons m moves ih =>
      rw [trace, List.forall_mem_cons] at hfits
      have hnext := hsound.move hfits.1
      cases m with
      | step i =>
          cases hi : floor.clients[i]? with
          | none =>
              have hsame := move_step_none hi
              refine ih hnext hfits.2 (c := c) ?_ ho
              rw [hsame]
              exact hc
          | some x =>
              have hx := hsound.clients x (List.mem_of_getElem? hi)
              have hstep := Client.step_stepped hx floor.shop
              have hmove := move_step hi
              by_cases hin : i = n
              · subst hin
                rw [hi, Option.some.injEq] at hc
                subst hc
                refine ih hnext hfits.2 (c := (x.step floor.shop).1) ?_ (hstep.outcome?_eq_some ho)
                rw [hmove]
                exact List.getElem?_set_self (List.getElem?_eq_some_iff.mp hi).1
              · refine ih hnext hfits.2 (c := c) ?_ ho
                rw [hmove]
                exact (List.getElem?_set_ne hin).trans hc
      | act call action => exact ih hnext hfits.2 (c := c) hc ho

/-- A call that ends with a replayed answer has changed nothing in the shop on its way. -/
theorem shop_eq_of_replayed (hsound : floor.IsSound) {moves : List Move}
    (hfits : ∀ m ∈ floor.trace moves, ∀ call action, m.move = .act call action → action.Fits)
    {o : Outcome OrderReceipt} (hc : (floor.after moves).clients[n]? = some c)
    (ho : c.stage.outcome? = some o) (hreplayed : o.replayed = true) :
    ∀ m ∈ floor.trace moves, m.move = .step n → m.after.shop = m.before.shop := by
  induction moves generalizing floor with
  | nil => exact List.forall_mem_nil _
  | cons m moves ih =>
      rw [trace, List.forall_mem_cons] at hfits ⊢
      have hnext := hsound.move hfits.1
      refine ⟨?_, ih hnext hfits.2 hc⟩
      rintro rfl
      change (floor.move (.step n)).shop = floor.shop
      cases hx : floor.clients[n]? with
      | none => rw [move_step_none hx]
      | some x =>
          have hxsound := hsound.clients x (List.mem_of_getElem? hx)
          rw [move_step hx]
          rcases (Client.step_stepped hxsound floor.shop).shop_eq hxsound with
            hsame | ⟨own, hown, hfresh⟩
          · exact hsame
          · -- An own outcome would be the one at the end, which is a replay.
            have hset : (floor.move (.step n)).clients[n]? = some (x.step floor.shop).1 := by
              rw [move_step hx]
              exact List.getElem?_set_self (List.getElem?_eq_some_iff.mp hx).1
            obtain ⟨c', hc', ho'⟩ := outcome?_after hnext hfits.2 hset hown
            have hsame : c' = c := Option.some.inj (hc'.symm.trans hc)
            rw [hsame, ho, Option.some.injEq] at ho'
            rw [ho', hfresh] at hreplayed
            cases hreplayed

/-- The call in a place, one of the attempt, has returned an outcome. -/
def Answers (floor : Floor) (key : String) (n : Nat) (o : Outcome OrderReceipt) : Prop :=
  ∃ c, floor.clients[n]? = some c ∧ c.request.attemptId = some key ∧ c.stage = .answered (.ok o)

/-- While the attempt is open, none of its calls has an answer. -/
theorem Open.not_answers (h : floor.Open key) {o : Outcome OrderReceipt} :
    ¬ floor.Answers key n o := by
  rintro ⟨c, hc, hkey, hstage⟩
  have houtcome := h.outcomes c (List.mem_of_getElem? hc) hkey
  rw [hstage] at houtcome
  cases houtcome

/-- Once the attempt is taken, every answer is the receipt, and a fresh one is the winner's. -/
theorem Taken.answers (h : floor.Taken key receipt winner) {o : Outcome OrderReceipt}
    (hanswers : floor.Answers key n o) :
    o.receipt = receipt ∧ (o.replayed = false → n = winner) := by
  obtain ⟨c, hc, hkey, hstage⟩ := hanswers
  apply h.outcomes n c o hc hkey
  rw [hstage]
  rfl

theorem move_mem_of_trace {moves : List Move} {m : Moment} (hm : m ∈ floor.trace moves) :
    m.move ∈ moves := by
  induction moves generalizing floor with
  | nil => cases hm
  | cons next moves ih =>
      rcases List.mem_cons.mp hm with rfl | hm
      · exact List.mem_cons_self
      · exact List.mem_cons_of_mem _ (ih hm)

theorem isSound_of_arrived (harrived : ∀ c ∈ floor.clients, c.stage = .arrived)
    (htimed : ∀ c ∈ floor.clients, c.call.pricedAt.IsValid)
    (hprices : ∀ p ∈ floor.shop.store.products, Word.Fits p.price.cents) : floor.IsSound := by
  refine ⟨hprices, ?_⟩
  intro c hc
  have hstage := harrived c hc
  refine ⟨htimed c hc, ?_, ?_⟩
  · intro d hpriced
    rw [hstage] at hpriced
    cases hpriced
  · intro o events hclosed
    rw [hstage] at hclosed
    cases hclosed

/-- Calls of one attempt and others that arrive at a shop which remembers nothing for the
attempt place one order for it, in whatever order they take their steps and whatever else
happens in between, provided that its record does not expire meanwhile. At most one of them
answers with an order of its own; at most one order is inserted for the attempt, by the
transaction of one of them, with its lines and sales; every answer is the receipt of that
order; and a call that repeats it has changed nothing and published nothing. -/
theorem order_is_placed_once (floor : Floor) (moves : List Move) (key : String)
    (harrived : ∀ c ∈ floor.clients, c.stage = .arrived)
    (htimed : ∀ c ∈ floor.clients, c.call.pricedAt.IsValid)
    (hprices : ∀ p ∈ floor.shop.store.products, Word.Fits p.price.cents)
    (hfits : ∀ call action, .act call action ∈ moves → action.Fits)
    (hothers : ∀ call action, .act call action ∈ moves → ¬ action.PlacesFor key)
    (hnone : floor.shop.store.remembered? placingScope key = none)
    (hlive : ∀ m ∈ floor.trace moves, ∀ r,
      m.before.shop.store.remembered? placingScope key = some r →
        ∀ t ∈ m.readings, r.isLive t = true) :
    (∀ i j o p, (floor.after moves).Answers key i o → (floor.after moves).Answers key j p →
      o.replayed = false → p.replayed = false → i = j) ∧
    ((floor.trace moves).flatMap (Moment.inserted key)).length ≤ 1 ∧
    (∀ m ∈ floor.trace moves, m.inserted key ≠ [] →
      ∃ n receipt, m.Places key n receipt ∧ m.inserted key = [receipt.order]) ∧
    (∀ n o, (floor.after moves).Answers key n o →
      ∃ m ∈ floor.trace moves, ∃ winner, m.Places key winner o.receipt ∧
        (o.replayed = false → n = winner)) ∧
    ∀ n o, (floor.after moves).Answers key n o → o.replayed = true →
      ∀ m ∈ floor.trace moves, m.move = .step n → m.after.shop = m.before.shop := by
  have hsound := isSound_of_arrived harrived htimed hprices
  have hopen : floor.Open key := by
    refine ⟨hnone, ?_⟩
    intro c hc _
    rw [harrived c hc]
    rfl
  have hregular : ∀ m ∈ floor.trace moves, m.IsRegular key := by
    intro m hm
    have hmove := move_mem_of_trace hm
    exact ⟨fun call action h => hfits call action (h ▸ hmove),
      fun call action h => hothers call action (h ▸ hmove), hlive m hm⟩
  have hquiet : ∀ n o, (floor.after moves).Answers key n o → o.replayed = true →
      ∀ m ∈ floor.trace moves, m.move = .step n → m.after.shop = m.before.shop := by
    rintro n o ⟨c, hc, -, hstage⟩ hreplayed
    exact shop_eq_of_replayed hsound (fun m hm => (hregular m hm).fits) hc
      (by rw [hstage]; rfl) hreplayed
  rcases hopen.after hsound hregular with
    ⟨hstill, hnever⟩ | ⟨receipt, winner, htaken, ⟨m, hm, hplaces⟩, hone, honly⟩
  · -- No call of the attempt has written, so none has an answer.
    refine ⟨fun _ _ _ _ h => absurd h hstill.not_answers, ?_, ?_,
      fun _ _ h => absurd h hstill.not_answers, hquiet⟩
    · rw [List.flatMap_eq_nil_iff.mpr hnever]
      exact Nat.zero_le 1
    · intro m hm hsome
      exact absurd (hnever m hm) hsome
  · refine ⟨?_, ?_, ?_, ?_, hquiet⟩
    · intro i j o p hi hj ho hp
      rw [(htaken.answers hi).2 ho, (htaken.answers hj).2 hp]
    · rw [hone]
      exact Nat.le_refl 1
    · intro m hm hsome
      exact ⟨winner, receipt, honly m hm hsome⟩
    · intro n o h
      obtain ⟨hreceipt, hwinner⟩ := htaken.answers h
      refine ⟨m, hm, winner, ?_, hwinner⟩
      rw [hreceipt]
      exact hplaces

/-- Two calls of one attempt, with different carts. -/
def rivals : Floor :=
  ⟨(Run.play Settings.standard
      [(Call.on 20000 'a',
        .addProduct ⟨"soup", "Soup", .simple, ⟨850⟩, true, ⟨20000, 0, 0⟩, ⟨20000, 0, 0⟩⟩)]).2,
    [⟨Call.on 20000 'b', ⟨some "c-7", none, .pos, some "till-1", [⟨"soup", 2, []⟩]⟩, .arrived⟩,
     ⟨Call.on 20000 'c', ⟨some "c-7", none, .pos, some "till-1", [⟨"soup", 3, []⟩]⟩, .arrived⟩]⟩

/-- Both look for an answer before the second call places its order. -/
def rivalMoves : List Move :=
  [.step 0, .step 1, .step 1, .step 0, .step 1, .act (Call.on 20000 'd') (.operate .purge),
   .step 1, .step 0]

theorem rivals_place_one_order :
    ((rivals.trace rivalMoves).flatMap (Moment.inserted "till-1")).length ≤ 1 := by
  have hcalendar : (⟨20000, 0, 0⟩ : Time.Instant).IsInCalendar := by decide
  have hact {call : Call} {action : Action} (h : Move.act call action ∈ rivalMoves) :
      action = .operate .purge := by
    simp only [rivalMoves, List.mem_cons, reduceCtorEq, false_or, List.not_mem_nil, or_false,
      Move.act.injEq] at h
    exact h.2
  have hlive : (rivals.trace rivalMoves).all (fun m =>
      (m.before.shop.store.remembered? placingScope "till-1").all fun r =>
        m.readings.all fun t => r.isLive t) = true := by
    decide +kernel
  refine (order_is_placed_once rivals rivalMoves "till-1" ?_ ?_ ?_ ?_ ?_ ?_ ?_).2.1
  · intro c hc
    rcases List.mem_pair.mp hc with rfl | rfl <;> rfl
  · intro c hc
    rcases List.mem_pair.mp hc with rfl | rfl
    · exact (Call.isTimed_on 'b' hcalendar).pricedAt
    · exact (Call.isTimed_on 'c' hcalendar).pricedAt
  · decide +kernel
  · intro call action h
    rw [hact h]
    trivial
  · intro call action h
    rw [hact h]
    exact not_false
  · decide +kernel
  · intro m hm r hr t ht
    have hm := List.all_eq_true.mp hlive m hm
    rw [hr, Option.all_some] at hm
    exact List.all_eq_true.mp hm t ht

end Floor

end OrderLedger
