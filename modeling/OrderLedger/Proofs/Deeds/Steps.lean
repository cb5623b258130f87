import OrderLedger.Proofs.Deeds.Writes
import OrderLedger.Proofs.Payment.Once
import OrderLedger.Proofs.Run.Values
import OrderLedger.Proofs.Shop.HandingOver
import OrderLedger.Proofs.Shop.Selling

/-!
Every plain operation does its deed. The ids of its call are new, and the ledger has room for
what the deed changes; then nothing but the orders that the operation names, the lines that it
names and the catalog decides between success and error.
-/

namespace OrderLedger

open Work Calculation

variable {call : Call} {entryIds : List String} {s t : Store} {answer : Answer}

namespace Shop

variable {settings : Settings} {turns : List Turn} {shop : Shop} {orderId : String}

/-- The entries of lines have ids of the call. -/
theorem exists_id_of_mem_lineEntries {now : Time.Instant} {ids : Nat → String} {reason : Reason}
    {sign : Int} {lines : List Line} {e : StockEntry}
    (he : e ∈ lineEntries settings now ids orderId reason sign lines) : ∃ n, e.id = ids n := by
  obtain ⟨⟨l, n⟩, -, rfl⟩ := List.mem_map.mp he
  exact ⟨n, rfl⟩

theorem exists_id_of_mem_paymentsBy {tenders : List Tender} {p : Payment}
    (hp : p ∈ paymentsBy settings call orderId tenders) : ∃ n, p.id = call.ids n := by
  obtain ⟨⟨t, n⟩, -, rfl⟩ := List.mem_map.mp hp
  exact ⟨n, rfl⟩

theorem terms_paymentsBy {tenders : List Tender} :
    (paymentsBy settings call orderId tenders).map (·.terms) =
      tenders.map fun t => ⟨orderId, t.method, t.amount, settings.deviceId⟩ := by
  conv_rhs => rw [← List.zipIdx_map_fst 0 tenders]
  rw [paymentsBy, List.map_map, List.map_map]
  rfl

theorem deed_reverse {target : Status} {reason : Reason} (hrun : Run settings turns shop)
    (hnew : call.IsNew shop.store)
    (hvolume : Tally.volume (shop.store.changes ++
      (Deed.ofReversing shop.store orderId target).changes) < 2 ^ 63) :
    let result := shop.commit (reverseWork shop.settings call orderId target reason)
    (Deed.ofReversing shop.store orderId target).Tells call entryIds shop.store
      (result.1.map .order) result.2.store := by
  intro result
  refine Deed.tells_ofMove (fun habsent => ?_) (fun o hfound hmove => ?_)
    fun o hfound hmove hdeed => ?_
  · simp only [result, commit_of_fails (fails_reverse_absent habsent)]
    exact ⟨rfl, trivial⟩
  · simp only [result, commit_of_fails (fails_reverse_refused hfound hmove)]
    exact ⟨rfl, trivial⟩
  · rw [Deed.ofReversing, hdeed] at hvolume
    obtain ⟨o', events, t, htransact⟩ : ∃ o' events t,
        transact (reverseWork shop.settings call orderId target reason) shop.store =
          (.ok (o', events), t) :=
      exists_reverse hfound hmove (hrun.quantities_linesOf orderId) hnew.isFresh
        (Store.sumsFit_of_volume hvolume)
    obtain ⟨⟨o'', hfound', -, rfl⟩, -⟩ := transact_reverseWork htransact
    cases hfound.symm.trans hfound'
    simp only [result, commit_eq_ok.mpr ⟨events, _, htransact, rfl⟩]
    refine Deed.tells_move call.now [] (lineEntries shop.settings call.now call.ids orderId reason
      1 (shop.store.linesOf orderId)) hfound (List.forall_mem_nil _)
      (fun e he => exists_id_of_mem_lineEntries he) rfl changes_lineEntries rfl ?_
    rw [List.append_nil]

theorem deed_pay {tenders : List Tender} (hnew : call.IsNew shop.store) :
    let result := shop.pay call orderId tenders none
    (Deed.ofPaying shop.settings shop.store orderId tenders).Tells call entryIds shop.store
      (result.1.map .paid) result.2.store := by
  intro result
  unfold Deed.ofPaying
  cases htenders : checkTenders tenders with
  | error e =>
      have hearlier : earlierPaying shop.store call tenders none = .error e := by
        rw [earlierPaying, htenders]
        rfl
      simp only [result, pay, hearlier]
      exact Deed.tells_refused e
  | ok u =>
      refine Deed.tells_ofMove (fun habsent => ?_) (fun o hfound hmove => ?_)
        fun o hfound hmove _ => ?_
      · simp only [result, pay_of_fails htenders (fails_settle_absent habsent)]
        exact ⟨rfl, trivial⟩
      · simp only [result, pay_of_fails htenders (fails_settle_refused hfound hmove)]
        exact ⟨rfl, trivial⟩
      · have hpending : o.status = .pending := by
          cases hstatus : o.status <;> simp_all [Status.canMoveTo]
        obtain ⟨receipt, after, hpay, hpaid⟩ := pay_of_pending hfound hpending htenders hnew.isFresh
        obtain ⟨records, hclaims, hafter⟩ := hpaid.after
        obtain rfl : records = shop.store.remembered := hclaims
        have hverdict : ((report ⟨receipt, false⟩).map .paid).map Reply.number? =
            ((Money.sum (tenders.map (·.amount))).mapError .overflow).map fun _ => none := by
          rw [report, totalOf, hpaid.payments, amounts_paymentsBy]
          cases Money.sum (tenders.map (·.amount)) <;> rfl
        simp only [result, hpay, hafter]
        refine Deed.tells_move call.now (paymentsBy shop.settings call orderId tenders) [] hfound
          (fun p hp => exists_id_of_mem_paymentsBy hp) (List.forall_mem_nil _) terms_paymentsBy
          rfl hverdict ?_
        rw [List.append_nil, hpending]

theorem deed_discard (hrun : Run settings turns shop) (hnew : call.IsNew shop.store)
    (hvolume : Tally.volume (shop.store.changes ++
      (Deed.ofDiscarding shop.store orderId).changes) < 2 ^ 63) :
    let result := shop.discard call orderId
    (Deed.ofDiscarding shop.store orderId).Tells call entryIds shop.store
      (result.1.map .flag) result.2.store := by
  intro result
  have hdeletable : shop.store.isDeletable orderId = true ↔ _ := hrun.intact.isDeletable_iff
  unfold Deed.ofDiscarding at hvolume ⊢
  split at hvolume
  · next hstays =>
      obtain ⟨hpending, hwaiting⟩ := hstays
      rw [if_pos ⟨hpending, hwaiting⟩]
      obtain ⟨events, t, htransact⟩ : ∃ events t,
          transact (discardWork shop.settings call orderId) shop.store = (.ok (true, events), t) :=
        exists_discard (hdeletable.mpr ⟨hpending, hwaiting⟩) (hrun.quantities_linesOf orderId)
          hnew.isFresh (Store.sumsFit_of_volume hvolume)
      rcases transact_discardWork htransact with ⟨-, es, hdiscarded, -⟩ | ⟨hno, -⟩
      · have hcommit := commit_eq_ok.mpr ⟨events, t, htransact, rfl⟩
        simp only [result, discard, hcommit, hdiscarded.after, hdiscarded.entries]
        exact Deed.tells_deletion hrun.intact hrun.settledFirst hpending hwaiting
          (fun e he => exists_id_of_mem_lineEntries he) changes_lineEntries rfl
      · cases hno
  · next hstays =>
      rw [if_neg hstays]
      have hkept : shop.store.isDeletable orderId = false := by
        rw [← Bool.not_eq_true, hdeletable]
        exact hstays
      have htransact : transact (discardWork shop.settings call orderId) shop.store =
          (.ok (false, []), shop.store) := discard_kept hkept
      simp only [result, discard, commit_eq_ok.mpr ⟨[], shop.store, htransact, rfl⟩]
      exact Deed.tells_nothing rfl

theorem deed_handOverLines {lineIds : List String} (hnew : call.IsNew shop.store) :
    let result := shop.handOverLines call lineIds
    (Deed.ofHandingOver shop.store lineIds).Tells call entryIds shop.store
      (result.1.map .count) result.2.store := by
  intro result
  unfold Deed.ofHandingOver
  cases hstored : (distinctSorted lineIds).find? fun id => !shop.store.hasLine id with
  | some missing =>
      simp only [result, handOverLines_of_fails (Store.fails_handOver hstored)]
      exact Deed.tells_refused _
  | none =>
      obtain ⟨marks, hmarked, hdrawn, hhand⟩ :=
        Store.exists_handOver call.now hnew.distinct hnew.handOvers hstored
      simp only [result, handOverLines_of_yields hhand, ← hmarked, List.length_map]
      exact Deed.tells_marks rfl hdrawn

theorem deed_handOverOrder (hnew : call.IsNew shop.store) :
    let result := shop.handOverOrder call orderId
    (Deed.ofHandingOverOrder shop.store orderId).Tells call entryIds shop.store
      (result.1.map .count) result.2.store := by
  intro result
  unfold Deed.ofHandingOverOrder
  cases hfound : shop.store.order? orderId with
  | none =>
      simp only [Store.statusOf, hfound, Option.map_none, result, handOverOrder_absent call hfound]
      exact Deed.tells_refused _
  | some o =>
      simp only [Store.statusOf, hfound, Option.map_some]
      by_cases hpaid : o.status = .paid
      · simp only [if_pos hpaid, result, handOverOrder_of_paid call hfound hpaid]
        exact deed_handOverLines hnew
      · simp only [if_neg hpaid, result, handOverOrder_unpaid call hfound hpaid]
        exact Deed.tells_refused _

/-- Entries with distinct and new ids are appended where the ledger has room for them. -/
theorem exists_append (call : Call) {es : List StockEntry} (hids : (es.map (·.id)).Nodup)
    (hunused : ∀ e ∈ es, ∀ other ∈ shop.store.entries, other.id ≠ e.id)
    (hvolume : Tally.volume (shop.store.changes ++ StockEntry.changes es) < 2 ^ 63) :
    ∃ events after, shop.append call es = (.ok events, after) := by
  unfold append
  split
  · exact ⟨[], shop, rfl⟩
  · rw [Store.changes, ← StockEntry.changes_append] at hvolume
    obtain ⟨told, happend⟩ : ∃ told, (appendWork es call.now).Yields shop.store told
        { shop.store with entries := shop.store.entries ++ es } :=
      exists_appendWork (Store.yields_appendEntries.mpr ⟨rfl, hids, hunused⟩)
        (Store.exists_events_of_volume (s := shop.store) rfl hvolume)
    have hwork : (appendWork es call.now >>= fun events =>
        (pure (Closing.commit (events, events)) : Work ShopError _)).Yields shop.store
          (Closing.commit (told, told)) { shop.store with entries := shop.store.entries ++ es } := by
      simp only [yields_bind, yields_pure]
      exact ⟨told, _, happend, rfl, rfl⟩
    exact ⟨told, _, commit_eq_ok.mpr ⟨told, _, transact_of_commit hwork, rfl⟩⟩

theorem deed_append {es : List StockEntry} (hids : (es.map (·.id)).Nodup)
    (hunused : ∀ e ∈ es, e.id ∉ shop.store.entryIds)
    (hvolume : Tally.volume (shop.store.changes ++ StockEntry.changes es) < 2 ^ 63) :
    let result := shop.append call es
    ({ changes := StockEntry.changes es } : Deed).Tells call (es.map (·.id)) shop.store
      (result.1.map .events) result.2.store := by
  intro result
  obtain ⟨events, after, happend⟩ := exists_append call hids
    (fun e he other hother heq => hunused e he (heq ▸ List.mem_map_of_mem hother)) hvolume
  simp only [result, happend, (append_eq_ok happend).1]
  exact Deed.tells_entries rfl fun e he => Or.inl (List.mem_map_of_mem he)

theorem deed_enter {productId actor : String} {delta : Int} {reason : Reason}
    (hnew : call.IsNew shop.store)
    (hvolume : Tally.volume (shop.store.changes ++
      (Deed.ofEntering shop.store productId delta reason actor).changes) < 2 ^ 63) :
    let result := shop.enter call productId delta reason actor
    (Deed.ofEntering shop.store productId delta reason actor).Tells call entryIds shop.store
      (result.1.map .event) result.2.store := by
  intro result
  unfold Deed.ofEntering at hvolume ⊢
  cases hmanual : checkManual delta reason actor with
  | error e =>
      simp only [result, enter, hmanual]
      exact Deed.tells_refused e
  | ok u =>
      simp only [hmanual] at hvolume ⊢
      by_cases hmissing : (shop.store.product? productId).isNone = true
      · simp only [result, enter, hmanual, hmissing, if_true]
        exact Deed.tells_refused _
      · rw [if_neg hmissing] at hvolume ⊢
        have hdrawn : ∀ e ∈ [manualEntry shop.settings call productId delta reason actor],
            e.id = call.ids 0 := by
          intro e he
          rw [List.mem_singleton.mp he]
          rfl
        have hids : ([manualEntry shop.settings call productId delta reason actor].map
            (·.id)).Nodup := List.nodup_singleton _
        obtain ⟨events, after, happend⟩ := exists_append call hids
          (fun e he => hdrawn e he ▸ hnew.isFresh.entries 0) hvolume
        obtain ⟨rfl, hevents⟩ := append_eq_ok happend
        obtain ⟨event, rfl⟩ := Store.yields_events_singleton hevents
        simp only [result, enter, hmanual, hmissing, happend]
        have htold : Except.map Reply.number? (.ok (.event event) : Answer) = .ok none := rfl
        exact Deed.tells_entries htold fun e he => Or.inr ⟨0, hdrawn e he⟩

/-- A priced draft is written by a call whose ids are new, as the stock is not asked for. -/
theorem exists_place {r : OrderRequest} {d : Draft} (hrun : Run settings turns shop)
    (hattempt : r.attemptId = none) (hpolicy : shop.settings.policy = .allow)
    (hprice : priceDraft shop.store call r = .ok d) (hnew : call.IsNew shop.store)
    (hvolume : Tally.volume (shop.store.changes ++ Line.changes (-1) d.lines) < 2 ^ 63) :
    ∃ after, shop.place call r = (.ok ⟨d.receipt, false⟩, after) ∧
      Placed shop.settings call d shop.store after.store := by
  have hbuild := mapError_eq_ok.mp hprice
  have hfirst : IsFirst shop.settings call shop.store Remembered.placingScope r.attemptId := by
    rw [hattempt]
    exact ⟨nofun, nofun, nofun⟩
  obtain ⟨told, hwrite⟩ := exists_writeOrder shop.settings hbuild
    (fun p hp => hrun.prices_nonneg p (Store.mem_catalogOf hp)) hnew.isFresh
    (Store.sumsFit_of_volume hvolume)
  have hclaims : Claims shop.settings Remembered.placingScope d.order.attemptId
      (Remembered.payloadOf d.receipt) call.now shop.store shop.store.remembered := by
    rw [(Draft.build_eq_ok hbuild).attempt, hattempt]
    rfl
  have hrefuse : shop.settings.policy ≠ .refuse := by
    rw [hpolicy]
    exact nofun
  have htransact := transact_of_commit
    (yields_placeWork hclaims (fun hcheck => absurd hcheck hrefuse) hwrite)
  have hplace := place_of_isFirst hprice hfirst
  rw [commit_eq_ok.mpr ⟨told, _, htransact, rfl⟩] at hplace
  refine ⟨_, hplace, ?_⟩
  rcases transact_placeWork htransact with ⟨-, hplaced, -⟩ | ⟨hlost, -⟩
  · exact hplaced
  · cases hlost.replayed

/-- An order is placed, and what its lines take is entered. -/
theorem deed_placed {catalog : Catalog} {r : OrderRequest} {d : Draft} (hs : s.Intact)
    (hbuild : Draft.build catalog call.pricedAt call.ids r = .ok d)
    (hplaced : Placed settings call d s t) (h : answer.map Reply.number? = .ok none) :
    Deed.Tells { places := true, changes := Line.changes (-1) d.lines } call entryIds s answer
      t := by
  have hsound := Draft.build_eq_ok hbuild
  have hlines := hplaced.linesOf_eq hsound hs
  have hdrawn (l : Line) (hl : l ∈ d.lines) : ∃ n, l.id = call.ids n := by
    obtain ⟨n, hid⟩ := (Draft.rows_build hbuild).drawn l hl
    exact ⟨n + 1, hid⟩
  obtain ⟨records, -, rfl⟩ := hplaced.after
  have hstatus (id : String) := Store.statusOf_insert (s := s) (o := d.order)
    (t := { s with orders := s.orders ++ [d.order] }) rfl hplaced.newOrder id
  rw [hsound.id, hsound.status] at hstatus
  rw [hsound.id] at hlines
  refine ⟨h, fun _ => ?_, nofun, fun id _ hid => ?_, fun l hl => ?_, (List.append_nil _).symm,
    (List.append_nil _).symm, ?_, ⟨rfl, rfl, rfl⟩,
    Store.ids_of_tables ?_ ?_ Store.ids_same Store.ids_same, ?_⟩
  · exact (hstatus (call.ids 0)).trans (if_pos rfl)
  · exact ⟨(hstatus id).trans (if_neg (hid rfl)), (hlines id).trans (if_neg (hid rfl))⟩
  · exact (List.mem_append.mp hl).imp_right (hdrawn l)
  · rw [Store.changes, StockEntry.changes_append, changes_lineEntries]
    rfl
  · refine Store.ids_append fun o ho => ⟨0, ?_⟩
    rw [List.mem_singleton.mp ho, hsound.id]
  · exact Store.ids_append hdrawn
  · refine Store.ids_append fun e he => Or.inr ?_
    obtain ⟨n, hid⟩ := exists_id_of_mem_lineEntries he
    exact ⟨_, hid⟩

theorem deed_place {r : OrderRequest} (hrun : Run settings turns shop)
    (hattempt : r.attemptId = none) (hpolicy : shop.settings.policy = .allow)
    (hnew : call.IsNew shop.store)
    (hvolume : Tally.volume (shop.store.changes ++ (Deed.ofPlacing shop.store r).changes) < 2 ^ 63) :
    let result := shop.place call r
    (Deed.ofPlacing shop.store r).Tells call entryIds shop.store (result.1.map .placed)
      result.2.store := by
  intro result
  unfold Deed.ofPlacing at hvolume ⊢
  rw [Draft.sold_eq _ call.pricedAt call.ids] at hvolume ⊢
  cases hbuild : Draft.build (shop.store.catalogOf r.productIds) call.pricedAt call.ids r with
  | error e =>
      have hprice : priceDraft shop.store call r = .error (.ofRule e) := by
        rw [priceDraft, hbuild]
        rfl
      have hearlier : earlierPlacing shop.store call r = .ok none := by
        rw [earlierPlacing, hattempt]
        rfl
      simp only [result, place, hearlier, hprice]
      exact Deed.tells_refused _
  | ok d =>
      rw [hbuild] at hvolume
      have hprice : priceDraft shop.store call r = .ok d := mapError_eq_ok.mpr hbuild
      obtain ⟨after, hplace, hplaced⟩ := exists_place hrun hattempt hpolicy hprice hnew hvolume
      simp only [result, hplace]
      exact deed_placed hrun.intact hbuild hplaced rfl

end Shop

/-- A plain operation does its deed, wherever its ids are new and the ledger has room. -/
theorem Operation.tells {settings : Settings} {turns : List Turn} {shop : Shop}
    (hrun : Run settings turns shop) {operation : Operation} (hplain : operation.isPlain settings = true)
    (hnew : call.IsNew shop.store) (hids : operation.entryIds.Nodup)
    (hunused : ∀ id ∈ operation.entryIds, id ∉ shop.store.entryIds)
    (hvolume : Tally.volume (shop.store.changes ++
      (operation.deed settings shop.store).changes) < 2 ^ 63) :
    let result := shop.perform call operation
    (operation.deed settings shop.store).Tells call operation.entryIds shop.store result.1
      result.2.store := by
  have hsettings := hrun.settings_eq
  cases operation with
  | place r =>
      obtain ⟨hattempt, hpolicy⟩ := Bool.and_eq_true_iff.mp hplain
      refine Shop.deed_place hrun (Option.isNone_iff_eq_none.mp hattempt) ?_ hnew hvolume
      rw [hsettings]
      exact of_decide_eq_true hpolicy
  | pay orderId tenders key =>
      obtain rfl : key = none := Option.isNone_iff_eq_none.mp hplain
      rw [Operation.deed, ← hsettings]
      exact Shop.deed_pay hnew
  | cancel orderId => exact Shop.deed_reverse hrun hnew hvolume
  | refund orderId => exact Shop.deed_reverse hrun hnew hvolume
  | discard orderId => exact Shop.deed_discard hrun hnew hvolume
  | handOverLines lineIds => exact Shop.deed_handOverLines hnew
  | handOverOrder orderId => exact Shop.deed_handOverOrder hnew
  | append entries =>
      exact Shop.deed_append hids (fun e he => hunused e.id (List.mem_map_of_mem he)) hvolume
  | enter productId delta reason actor => exact Shop.deed_enter hnew hvolume
  | reap attemptId keptId | purge => cases hplain

end OrderLedger
