import OrderLedger.Proofs.Shop.Heedless
import OrderLedger.Proofs.Shop.Selling

/-!
What a key adds to a call. A call that would succeed without its key writes the same with it,
where no live record holds the key; where one does, the call is answered from the record. Only
an expiry that cannot be told makes the difference.
-/

namespace OrderLedger

open Work Calculation Remembered

namespace Store

variable {s t : Store}

/-- Whether lines may be inserted is told by the lines and the orders that are there. -/
theorem AdmitsAll.congr {ls : List Line} (h : s.AdmitsAll ls) (hlines : t.lines = s.lines)
    (horders : ∀ id, t.hasOrder id = s.hasOrder id) : t.AdmitsAll ls := by
  induction ls generalizing s t with
  | nil => trivial
  | cons l rest ih =>
      obtain ⟨hfirst, hrest⟩ := h
      refine ⟨?_, ih hrest (congrArg (· ++ [l]) hlines) horders⟩
      unfold Admits hasLine at hfirst ⊢
      rwa [hlines, horders]

/-- The events of entries are told by the ledger. -/
theorem yields_events_congr {es : List StockEntry} {now : Time.Instant}
    {told : List StockEvent} (h : (Store.events es now).Yields s told s)
    (hentries : t.entries = s.entries) : (Store.events es now).Yields t told t := by
  simp only [Store.events, yields_bind, yields_calculate, yields_ask, yields_pure] at h ⊢
  obtain ⟨deltas, _, ⟨hdeltas, rfl⟩, stock, _, ⟨hstock, rfl⟩, htold, -⟩ := h
  refine ⟨deltas, t, ⟨hdeltas, rfl⟩, stock, t, ⟨?_, rfl⟩, htold, rfl⟩
  unfold stockOfMany at hstock ⊢
  rwa [hentries]

end Store

/-- The draft of the same cart for another attempt. -/
def Draft.forAttempt (d : Draft) (attemptId : Option String) : Draft :=
  { d with order := { d.order with attemptId } }

theorem Draft.build_forAttempt {catalog : Catalog} {now : Time.Instant} {ids : Nat → String}
    {r : OrderRequest} {d : Draft} {attemptId : Option String}
    (h : build catalog now ids { r with attemptId := none } = .ok d)
    (hkey : attemptId.forM Validation.key = .ok ()) :
    build catalog now ids { r with attemptId } = .ok (d.forAttempt attemptId) := by
  simp only [build, checkRequest, bind_eq_ok] at h ⊢
  obtain ⟨_, ⟨_, hcontact, _, hsize, _, -, hquantities⟩, lines, hlines, total, htotal, h⟩ := h
  cases h
  exact ⟨_, ⟨_, hcontact, _, hsize, (), mapError_eq_ok.mpr hkey, hquantities⟩, lines, hlines, total,
    htotal, rfl⟩

namespace Shop

variable {settings : Settings} {call : Call} {shop : Shop} {s t : Store} {key : String}

section Claiming

/-- A call that has found no answer is the first with its key, unless another call has claimed
the key since. -/
theorem isFirst_or_held {α : Type} [Wire α] {scope : String} {key : Option String}
    {expiresAt : Time.Instant} (h : earlier? (α := α) s scope key call.lookedUpAt = .ok none)
    (hexpiry : settings.lifetime >>= Remembered.expiry call.now = .ok expiresAt) :
    IsFirst settings call s scope key ∨
      ∃ k x, key = some k ∧ s.live? scope k call.now = some x := by
  cases key with
  | none => exact Or.inl ⟨nofun, nofun, nofun⟩
  | some k =>
      have hunanswered : s.live? scope k call.lookedUpAt = none := by
        unfold earlier? at h
        cases hlive : s.live? scope k call.lookedUpAt with
        | none => rfl
        | some x =>
            simp only [hlive] at h
            obtain ⟨o, -, ho⟩ := map_eq_ok.mp h
            cases ho
      cases hlive : s.live? scope k call.now with
      | some x => exact Or.inr ⟨k, x, rfl, hlive⟩
      | none =>
          refine Or.inl ⟨?_, ?_, fun _ _ => ⟨expiresAt, hexpiry⟩⟩
          · rintro _ ⟨⟩
            exact hunanswered
          · rintro _ ⟨⟩
            exact hlive

/-- A key that a live record holds is not claimed: the answer of the record is given, unless it
cannot be read. -/
theorem claim_held {α : Type} [Wire α] {scope : String} (payload : List UInt8)
    {expiresAt now : Time.Instant} {x : Remembered}
    (hexpiry : settings.lifetime >>= Remembered.expiry now = .ok expiresAt)
    (hlive : s.live? scope key now = some x) :
    (∃ o, o.replayed = true ∧
      (claim (α := α) settings scope (some key) payload now).Yields s (some o) s) ∨
      ∃ e, (claim (α := α) settings scope (some key) payload now).Fails s (.error e) := by
  obtain ⟨lifetime, hlifetime, hexpiry⟩ := bind_eq_ok.mp hexpiry
  cases hreplay : replay (α := α) x with
  | ok o =>
      refine Or.inl ⟨o, (replay_eq_ok.mp hreplay).2, ?_⟩
      simp only [claim, yields_bind, yields_calculate, Store.yields_claim]
      refine ⟨lifetime, s, ⟨hlifetime, rfl⟩, expiresAt, s, ⟨hexpiry, rfl⟩, (x, false), s,
        Or.inl ⟨x, hlive, rfl, rfl⟩, ?_⟩
      simp only [Bool.false_eq_true, if_false, hreplay]
      exact yields_pure.mpr ⟨rfl, rfl⟩
  | error e =>
      refine Or.inr ⟨e, ?_⟩
      simp only [claim, fails_bind]
      refine Or.inr ⟨lifetime, s, yields_calculate.mpr ⟨hlifetime, rfl⟩,
        Or.inr ⟨expiresAt, s, yields_calculate.mpr ⟨hexpiry, rfl⟩, Or.inr ⟨(x, false), s,
          Store.yields_claim.mpr (Or.inl ⟨x, hlive, rfl, rfl⟩), ?_⟩⟩⟩
      simp only [Bool.false_eq_true, if_false, hreplay]
      exact fails_fail.mpr rfl

/-- A key is not claimed where the expiry of its record cannot be told. -/
theorem claim_overflows {α : Type} [Wire α] {scope : String} {payload : List UInt8}
    {now : Time.Instant} {cause : Overflow}
    (hexpiry : settings.lifetime >>= Remembered.expiry now = .error cause) :
    (claim (α := α) settings scope (some key) payload now).Fails s (.overflow cause) := by
  simp only [claim, fails_bind, fails_calculate]
  cases hlifetime : settings.lifetime with
  | error first =>
      rw [hlifetime] at hexpiry
      cases hexpiry
      exact Or.inl ⟨cause, rfl, rfl⟩
  | ok lifetime =>
      rw [hlifetime] at hexpiry
      exact Or.inr ⟨lifetime, s, yields_calculate.mpr ⟨rfl, rfl⟩, Or.inl ⟨cause, hexpiry, rfl⟩⟩

end Claiming

section Placing

variable {d : Draft} {r : OrderRequest} {told : List StockEvent}

/-- The check of the stock looks neither at records nor at the attempt. -/
theorem checkStock_forAttempt (h : (checkStock d).Yields s () s) (attemptId : Option String)
    (records : List Remembered) : (checkStock (d.forAttempt attemptId)).Yields
      { s with remembered := records } () { s with remembered := records } :=
  (heedless_checkStock d).yields h records

/-- An order that can be written can be written for any attempt, whatever is remembered. -/
theorem writeOrder_forAttempt (h : (writeOrder settings call d).Yields s told t)
    (attemptId : Option String) (records : List Remembered) :
    ∃ u, (writeOrder settings call (d.forAttempt attemptId)).Yields
      { s with remembered := records } told u := by
  simp only [writeOrder, appendWork, yields_bind, yields_stored, yields_execute,
    yields_calculate, Store.insertOrder_eq_ok, Store.yields_insertLines,
    Store.yields_appendEntries] at h ⊢
  obtain ⟨_, _, ⟨htotal, hnew, rfl⟩, _, _, ⟨rfl, hlines⟩, es, _, ⟨hsales, rfl⟩, _, _,
    ⟨rfl, hentries⟩, htold⟩ := h
  have hsame := Store.yields_events htold
  rw [hsame] at htold
  refine ⟨{ s with
      orders := s.orders ++ [(d.forAttempt attemptId).order]
      lines := s.lines ++ d.lines
      entries := s.entries ++ es
      remembered := records },
    (), _, ⟨htotal, hnew, rfl⟩, (), _, ⟨rfl, hlines.congr rfl ?_⟩, es, _, ⟨hsales, rfl⟩,
    (), _, ⟨rfl, hentries⟩, Store.yields_events_congr htold rfl⟩
  intro id
  simp [Store.hasOrder, Draft.forAttempt]

/-- What a call without an attempt has done when it succeeds. -/
theorem place_unkeyed {o : Outcome OrderReceipt}
    (h : (shop.place call { r with attemptId := none }).1 = .ok o) :
    ∃ d told t, Draft.build (shop.store.catalogOf r.productIds) call.pricedAt call.ids
        { r with attemptId := none } = .ok d ∧
      (shop.settings.policy = .refuse → (checkStock d).Yields shop.store () shop.store) ∧
      (writeOrder shop.settings call d).Yields shop.store told t := by
  unfold place at h
  split at h
  · cases h
  · next hearlier => cases hearlier
  · split at h
    · cases h
    · next d hprice =>
        have hbuild := mapError_eq_ok.mp hprice
        have hattempt := (Draft.build_eq_ok hbuild).attempt
        obtain ⟨events, t, htransact, -⟩ := commit_eq_ok.mp (Prod.ext h rfl)
        obtain ⟨closing, u, hwork, -⟩ := transact_eq_ok.mp htransact
        simp only [placeWork, hattempt, claim, yields_bind, yields_pure] at hwork
        obtain ⟨_, _, ⟨rfl, rfl⟩, hwork⟩ := hwork
        simp only at hwork
        split at hwork
        · simp only [yields_bind, yields_pure] at hwork
          obtain ⟨_, _, hcheck, told, v, hwrite, -⟩ := hwork
          obtain rfl := yields_checkStock hcheck
          exact ⟨d, told, v, hbuild, fun _ => hcheck, hwrite⟩
        · next hpolicy =>
            simp only [yields_bind, yields_pure] at hwork
            obtain ⟨told, v, hwrite, -⟩ := hwork
            exact ⟨d, told, v, hbuild, fun hrefuse => absurd hrefuse hpolicy, hwrite⟩

/-- A call that would succeed without its attempt succeeds afresh if it is the first of the
attempt. -/
theorem place_first {o : Outcome OrderReceipt}
    (h : (shop.place call { r with attemptId := none }).1 = .ok o)
    (hkey : checkKey r.attemptId = .ok ())
    (hfirst : IsFirst shop.settings call shop.store placingScope r.attemptId) :
    ∃ receipt, (shop.place call r).1 = .ok ⟨receipt, false⟩ := by
  obtain ⟨d, told, t, hbuild, hcheck, hwrite⟩ := place_unkeyed h
  have hbuild' := Draft.build_forAttempt hbuild (mapError_eq_ok.mp hkey)
  obtain ⟨records, hclaims⟩ := hfirst.claims (payloadOf (d.forAttempt r.attemptId).receipt)
  obtain ⟨u, hwrite'⟩ := writeOrder_forAttempt hwrite r.attemptId records
  have hwork := yields_placeWork (d := d.forAttempt r.attemptId) hclaims
    (fun hpolicy => checkStock_forAttempt (hcheck hpolicy) r.attemptId records) hwrite'
  have hplace := (place_of_isFirst (mapError_eq_ok.mpr hbuild') hfirst).trans
    (commit_eq_ok.mpr ⟨told, u, transact_of_commit hwork, rfl⟩)
  exact ⟨_, congrArg Prod.fst hplace⟩

/-- A call of an attempt that another call holds by now is answered without an overflow. -/
theorem place_held {d : Draft} {x : Remembered} {expiresAt : Time.Instant}
    (hearlier : earlierPlacing shop.store call r = .ok none)
    (hprice : priceDraft shop.store call r = .ok d) (hattempt : d.order.attemptId = some key)
    (hexpiry : shop.settings.lifetime >>= Remembered.expiry call.now = .ok expiresAt)
    (hlive : shop.store.live? placingScope key call.now = some x) (cause : Overflow) :
    (shop.place call r).1 ≠ .error (.overflow cause) := by
  have hplace : shop.place call r = shop.commit (placeWork shop.settings call d) := by
    simp only [place, hearlier, hprice]
  rw [hplace]
  rcases claim_held (α := OrderReceipt) (payloadOf d.receipt) hexpiry hlive with
    ⟨o, -, hclaim⟩ | ⟨e, hclaim⟩
  · have hwork : (placeWork shop.settings call d).Yields shop.store (.rollback (o, []))
        shop.store := by
      simp only [placeWork, hattempt, yields_bind]
      exact ⟨some o, _, hclaim, yields_pure.mpr ⟨rfl, rfl⟩⟩
    rw [commit_eq_ok.mpr ⟨[], shop.store, transact_eq_ok.mpr ⟨_, _, hwork, rfl⟩, rfl⟩]
    rintro ⟨⟩
  · have hwork : (placeWork shop.settings call d).Fails shop.store (.error e) := by
      rw [placeWork, hattempt, fails_bind]
      exact Or.inl hclaim
    rw [commit_of_fails hwork]
    rintro ⟨⟩

/-- An attempt does not make a call overflow that would succeed without it. -/
theorem place_no_overflow {o : Outcome OrderReceipt}
    (h : (shop.place call { r with attemptId := none }).1 = .ok o) {expiresAt : Time.Instant}
    (hexpiry : shop.settings.lifetime >>= Remembered.expiry call.now = .ok expiresAt)
    (cause : Overflow) : (shop.place call r).1 ≠ .error (.overflow cause) := by
  cases hearlier : earlierPlacing shop.store call r with
  | error e =>
      rw [place, hearlier]
      rintro ⟨⟩
  | ok found =>
      cases found with
      | some earlier =>
          rw [place, hearlier]
          rintro ⟨⟩
      | none =>
          obtain ⟨_, hkey, hnone⟩ := bind_eq_ok.mp hearlier
          obtain ⟨d, told, t, hbuild, -, -⟩ := place_unkeyed h
          have hprice : priceDraft shop.store call r = .ok (d.forAttempt r.attemptId) :=
            mapError_eq_ok.mpr (Draft.build_forAttempt hbuild (mapError_eq_ok.mp hkey))
          rcases isFirst_or_held hnone hexpiry with hfirst | ⟨k, x, hk, hlive⟩
          · obtain ⟨receipt, hok⟩ := place_first h hkey hfirst
            rw [hok]
            rintro ⟨⟩
          · exact place_held hearlier hprice hk hexpiry hlive cause

/-- A call of an attempt overflows where the expiry of its record cannot be told, though it
would succeed without the attempt. -/
theorem place_overflows {o : Outcome OrderReceipt}
    (h : (shop.place call { r with attemptId := none }).1 = .ok o)
    (hattempt : r.attemptId = some key) (hkey : checkKey (some key) = .ok ())
    (hlive : shop.store.live? placingScope key call.lookedUpAt = none) {cause : Overflow}
    (hexpiry : shop.settings.lifetime >>= Remembered.expiry call.now = .error cause) :
    shop.place call r = (.error (.overflow cause), shop) := by
  rw [← hattempt] at hkey
  obtain ⟨d, told, t, hbuild, -, -⟩ := place_unkeyed h
  have hearlier : earlierPlacing shop.store call r = .ok none := by
    simp only [earlierPlacing, bind_eq_ok]
    refine ⟨(), hkey, ?_⟩
    simp only [hattempt, earlier?, hlive]
  have hprice : priceDraft shop.store call r = .ok (d.forAttempt r.attemptId) :=
    mapError_eq_ok.mpr (Draft.build_forAttempt hbuild (mapError_eq_ok.mp hkey))
  have hwork : (placeWork shop.settings call (d.forAttempt r.attemptId)).Fails shop.store
      (.overflow cause) := by
    rw [placeWork, fails_bind, show (d.forAttempt r.attemptId).order.attemptId = some key from
      hattempt]
    exact Or.inl (claim_overflows hexpiry)
  simp only [place, hearlier, hprice, commit_of_fails hwork]

end Placing

section Paying

variable {orderId : String} {tenders : List Tender} {key : Option String}

/-- What a payment without a key has done when it succeeds. -/
theorem pay_unkeyed {o : Outcome PaymentReceipt}
    (h : (shop.pay call orderId tenders none).1 = .ok o) :
    checkTenders tenders = .ok () ∧ ∃ receipt t,
      (settle orderId (paymentsBy shop.settings call orderId tenders) call.now).Yields shop.store
        receipt t ∧ report ⟨receipt, false⟩ = .ok o := by
  unfold pay at h
  split at h
  · cases h
  · next hearlier =>
      simp only [earlierPaying, bind_eq_ok] at hearlier
      obtain ⟨_, -, _, -, hnone⟩ := hearlier
      cases hnone
  · next hearlier =>
      simp only [earlierPaying, bind_eq_ok] at hearlier
      obtain ⟨_, htenders, -⟩ := hearlier
      split at h
      · next outcome paid hcommit =>
          obtain ⟨events, t, htransact, -⟩ := commit_eq_ok.mp hcommit
          obtain ⟨-, htransact⟩ := transact_silently.mp htransact
          obtain ⟨closing, u, hwork, hkept⟩ := transact_eq_ok.mp htransact
          simp only [payWork, claim, yields_bind, yields_pure] at hwork
          obtain ⟨_, _, ⟨rfl, rfl⟩, hwork⟩ := hwork
          simp only [yields_bind, yields_pure] at hwork
          obtain ⟨receipt, v, hsettle, _, _, -, rfl, rfl⟩ := hwork
          cases hkept
          exact ⟨htenders, receipt, v, hsettle, h⟩
      · cases h

/-- A settled order is kept under a key that may be claimed. -/
theorem yields_payWork {records : List Remembered}
    (hclaims : Claims settings payingScope key [] call.now s records)
    (hsettle : (settle orderId (paymentsBy settings call orderId tenders) call.now).Yields
      { s with remembered := records } receipt t) :
    ∃ u, (payWork settings call orderId tenders key).Yields s (.commit ⟨receipt, false⟩) u := by
  have hremembered : t.remembered = records := congrArg Store.remembered (yields_settle hsettle).2.2
  have hkeep : ∃ u, (keep payingScope key (payloadOf receipt)).Yields t () u := by
    cases key with
    | none => exact ⟨t, yields_pure.mpr ⟨rfl, rfl⟩⟩
    | some k =>
        obtain ⟨expiresAt, -, -, hrecords⟩ := hclaims
        exact ⟨_, yields_stored.mpr (yields_execute.mpr
          (fill_claimed s call.now expiresAt (hremembered.trans hrecords)))⟩
  obtain ⟨u, hkeep⟩ := hkeep
  refine ⟨u, ?_⟩
  simp only [payWork, yields_bind]
  refine ⟨none, _, yields_claim_of_claims hclaims, ?_⟩
  simp only [yields_bind, yields_pure]
  exact ⟨receipt, t, hsettle, (), u, hkeep, rfl, rfl⟩

/-- A payment that would succeed without its key succeeds afresh if it is the first with it. -/
theorem pay_first {o : Outcome PaymentReceipt}
    (h : (shop.pay call orderId tenders none).1 = .ok o) (hkey : checkKey key = .ok ())
    (hfirst : IsFirst shop.settings call shop.store payingScope key) :
    ∃ receipt, (shop.pay call orderId tenders key).1 = .ok ⟨receipt, false⟩ := by
  obtain ⟨htenders, receipt, t, hsettle, hreport⟩ := pay_unkeyed h
  obtain ⟨records, hclaims⟩ := hfirst.claims []
  obtain ⟨u, hwork⟩ := yields_payWork hclaims ((heedless_settle _ _ _).yields hsettle records)
  have hearlier : earlierPaying shop.store call tenders key = .ok none := by
    simp only [earlierPaying, bind_eq_ok]
    exact ⟨(), htenders, (), hkey, hfirst.earlier?⟩
  have hcommit := commit_eq_ok.mpr
    ⟨[], u, transact_silently.mpr ⟨rfl, transact_of_commit hwork⟩, rfl⟩
  refine ⟨receipt, ?_⟩
  rw [pay, hearlier]
  simp only [hcommit]
  rw [hreport, eq_of_report hreport]

/-- A payment whose key another call holds by now is answered without an overflow. -/
theorem pay_held {k : String} {x : Remembered} {expiresAt : Time.Instant}
    (hearlier : earlierPaying shop.store call tenders (some k) = .ok none)
    (hexpiry : shop.settings.lifetime >>= Remembered.expiry call.now = .ok expiresAt)
    (hlive : shop.store.live? payingScope k call.now = some x) (cause : Overflow) :
    (shop.pay call orderId tenders (some k)).1 ≠ .error (.overflow cause) := by
  rcases claim_held (α := PaymentReceipt) [] hexpiry hlive with
    ⟨o, hreplayed, hclaim⟩ | ⟨e, hclaim⟩
  · have hwork : (payWork shop.settings call orderId tenders (some k)).Yields shop.store
        (.rollback o) shop.store := by
      simp only [payWork, yields_bind]
      exact ⟨some o, _, hclaim, yields_pure.mpr ⟨rfl, rfl⟩⟩
    have hcommit := commit_eq_ok.mpr ⟨[], shop.store,
      transact_silently.mpr ⟨rfl, transact_eq_ok.mpr ⟨_, _, hwork, rfl⟩⟩, rfl⟩
    rw [pay, hearlier]
    simp only [hcommit, report, hreplayed, if_true]
    rintro ⟨⟩
  · have hwork : (payWork shop.settings call orderId tenders (some k)).Fails shop.store
        (.error e) := by
      rw [payWork, fails_bind]
      exact Or.inl hclaim
    rw [pay, hearlier]
    simp only [commit_of_fails (fails_silently hwork)]
    rintro ⟨⟩

/-- A key does not make a payment overflow that would succeed without it. -/
theorem pay_no_overflow {o : Outcome PaymentReceipt}
    (h : (shop.pay call orderId tenders none).1 = .ok o) {expiresAt : Time.Instant}
    (hexpiry : shop.settings.lifetime >>= Remembered.expiry call.now = .ok expiresAt)
    (cause : Overflow) : (shop.pay call orderId tenders key).1 ≠ .error (.overflow cause) := by
  cases hearlier : earlierPaying shop.store call tenders key with
  | error e =>
      rw [pay, hearlier]
      rintro ⟨⟩
  | ok found =>
      cases found with
      | some earlier =>
          rw [pay, hearlier]
          rintro ⟨⟩
      | none =>
          have hfound := hearlier
          simp only [earlierPaying, bind_eq_ok] at hfound
          obtain ⟨_, -, _, hkey, hnone⟩ := hfound
          rcases isFirst_or_held hnone hexpiry with hfirst | ⟨k, x, rfl, hlive⟩
          · obtain ⟨receipt, hok⟩ := pay_first h hkey hfirst
            rw [hok]
            rintro ⟨⟩
          · exact pay_held hearlier hexpiry hlive cause

/-- A payment with a key overflows where the expiry of its record cannot be told, though it
would succeed without the key. -/
theorem pay_overflows {k : String} {o : Outcome PaymentReceipt}
    (h : (shop.pay call orderId tenders none).1 = .ok o) (hkey : checkKey (some k) = .ok ())
    (hlive : shop.store.live? payingScope k call.lookedUpAt = none) {cause : Overflow}
    (hexpiry : shop.settings.lifetime >>= Remembered.expiry call.now = .error cause) :
    shop.pay call orderId tenders (some k) = (.error (.overflow cause), shop) := by
  have hearlier : earlierPaying shop.store call tenders (some k) = .ok none := by
    simp only [earlierPaying, bind_eq_ok]
    refine ⟨(), (pay_unkeyed h).1, (), hkey, ?_⟩
    simp only [earlier?, hlive]
  have hwork : (payWork shop.settings call orderId tenders (some k)).Fails shop.store
      (.overflow cause) := by
    rw [payWork, fails_bind]
    exact Or.inl (claim_overflows hexpiry)
  simp only [pay, hearlier, commit_of_fails (fails_silently hwork)]

end Paying

end Shop

end OrderLedger
