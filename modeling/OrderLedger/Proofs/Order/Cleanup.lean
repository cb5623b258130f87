import Mathlib.Data.List.Forall2
import Mathlib.Data.List.Infix
import OrderLedger.Proofs.Deeds.Writes
import OrderLedger.Proofs.Payment.Once
import OrderLedger.Proofs.Shop.Answers

/-!
Deleting orders that were never paid. Of the orders that a call asks for, exactly those go that
are pending and have no line handed over, each with its lines, and the ledger gets back what the
lines had taken. Such an order has neither payments nor marks, so no payment and no mark is ever
deleted.
-/

namespace OrderLedger

/-- The entry gives back what the line had taken. -/
structure StockEntry.GivesBack (settings : Settings) (now : Time.Instant) (l : Line)
    (e : StockEntry) : Prop where
  productId : e.productId = l.productId
  delta : e.delta = l.quantity
  reason : e.reason = .correction
  provenance : e.provenance = (Provenance.ofLine l.orderId l.id).onDevice settings.deviceId
  createdAt : e.createdAt = now

namespace Store

/-- A pending order of which no line was handed over. -/
def MayGo (s : Store) (o : Order) : Prop :=
  o.status = .pending ∧ ∀ l ∈ s.linesOf o.id, s.isHandedOver l.id = false

instance (s : Store) : DecidablePred s.MayGo :=
  fun o => inferInstanceAs (Decidable (o.status = .pending ∧ ∀ l ∈ s.linesOf o.id, _))

/-- The orders with the given ids are deleted with their lines, one entry for each of these
lines that moves stock is appended, and every other row stays. -/
def Removes (settings : Settings) (now : Time.Instant) (ids : List String) (s t : Store) : Prop :=
  ∃ es, List.Forall₂ (StockEntry.GivesBack settings now) (Line.moving (ids.flatMap s.linesOf)) es ∧
    t = { s with
      orders := s.orders.filter fun o => o.id ∉ ids
      lines := s.lines.filter fun l => l.orderId ∉ ids
      entries := s.entries ++ es }

variable {settings : Settings} {now : Time.Instant} {ids more : List String} {id : String}
  {s t u : Store}

/-- Where ids are distinct, an order of the store is deletable when it may go. -/
theorem isDeletable_iff_mayGo (hids : (s.orders.map (·.id)).Nodup) {o : Order}
    (ho : o ∈ s.orders) : s.isDeletable o.id = true ↔ s.MayGo o := by
  have hpending : s.isIn o.id .pending = true ↔ o.status = .pending := by
    rw [isIn_eq_true]
    constructor
    · rintro ⟨other, hother, hid, hstatus⟩
      rwa [← List.inj_on_of_nodup_map hids hother ho hid]
    · exact fun hstatus => ⟨o, ho, rfl, hstatus⟩
  rw [isDeletable, Bool.and_eq_true, hpending]
  simp [MayGo]

/-- A deletable order is stored. -/
theorem exists_of_isDeletable (h : s.isDeletable id = true) : ∃ o ∈ s.orders, o.id = id := by
  rw [isDeletable, Bool.and_eq_true, isIn_eq_true] at h
  obtain ⟨⟨o, ho, hid, -⟩, -⟩ := h
  exact ⟨o, ho, hid⟩

theorem removes_nil : s.Removes settings now [] s :=
  ⟨[], .nil, by simp⟩

namespace Removes

theorem linesOf_eq (h : s.Removes settings now ids t) (hid : id ∉ ids) :
    t.linesOf id = s.linesOf id := by
  obtain ⟨es, -, rfl⟩ := h
  rw [linesOf, List.filter_filter]
  refine List.filter_congr fun l _ => ?_
  by_cases howner : l.orderId = id
  · simp [howner, hid]
  · simp [howner]

/-- The other orders may be deleted afterwards if they might be before. -/
theorem isDeletable_eq (h : s.Removes settings now ids t) (hid : id ∉ ids) :
    t.isDeletable id = s.isDeletable id := by
  rw [isDeletable, isDeletable, h.linesOf_eq hid]
  obtain ⟨es, -, rfl⟩ := h
  congr 1
  rw [isIn, List.any_filter]
  refine List.any_congr rfl fun o => ?_
  by_cases howner : o.id = id
  · simp [howner, hid]
  · simp [howner]

/-- The orders that are gone cannot be deleted again. -/
theorem isDeletable_false (h : s.Removes settings now ids t) (hid : id ∈ ids) :
    t.isDeletable id = false := by
  rw [← Bool.not_eq_true]
  intro hdeletable
  obtain ⟨o, ho, rfl⟩ := exists_of_isDeletable hdeletable
  obtain ⟨es, -, rfl⟩ := h
  have hstays := (List.mem_filter.mp ho).2
  exact absurd hid (by simpa using hstays)

/-- Some orders are removed, and then others. -/
theorem append (h : s.Removes settings now ids u) (hmore : u.Removes settings now more t)
    (hdisjoint : ∀ id ∈ more, id ∉ ids) : s.Removes settings now (ids ++ more) t := by
  have hlines : more.flatMap u.linesOf = more.flatMap s.linesOf :=
    List.flatMap_congr fun id hid => h.linesOf_eq (hdisjoint id hid)
  obtain ⟨es, hes, rfl⟩ := h
  obtain ⟨later, hlater, rfl⟩ := hmore
  refine ⟨es ++ later, ?_, ?_⟩
  · rw [hlines] at hlater
    rw [List.flatMap_append, Line.moving, List.filter_append]
    exact List.rel_append hes hlater
  · simp only [List.filter_filter, List.mem_append, not_or, Bool.decide_and, List.append_assoc,
      Bool.and_comm]

end Removes

end Store

namespace Shop

open Work

variable {settings : Settings} {call : Call} {now : Time.Instant} {ids : Nat → String}
  {orderIds : List String} {orderId attemptId keptId : String} {count : Nat}
  {es : List StockEntry} {s t : Store}

/-- The entries for the lines of an order that is deleted give these lines back. -/
theorem lineEntries_giveBack {lines : List Line} (howner : ∀ l ∈ lines, l.orderId = orderId) :
    List.Forall₂ (StockEntry.GivesBack settings now) (Line.moving lines)
      (lineEntries settings now ids orderId .correction 1 lines) := by
  rw [lineEntries, List.forall₂_map_right_iff, List.forall₂_iff_get]
  refine ⟨by simp, fun n hn hn' => ?_⟩
  have hmem := List.mem_of_mem_filter (List.getElem_mem hn)
  have howned := howner _ hmem
  simp only [List.get_eq_getElem, List.getElem_zipIdx]
  exact ⟨rfl, one_mul _, rfl, by rw [howned]; rfl, rfl⟩

/-- A discarded order goes with its lines and with nothing else. -/
theorem Discarded.removes (h : Discarded settings now ids orderId s t es) (hs : s.Intact)
    (hfirst : s.SettledFirst) : s.Removes settings now [orderId] t := by
  obtain ⟨hpending, hwaiting⟩ := hs.isDeletable_iff.mp h.deletable
  refine ⟨es, ?_, ?_⟩
  · rw [h.entries, List.flatMap_singleton]
    exact lineEntries_giveBack fun l hl => beq_iff_eq.mp (List.mem_filter.mp hl).2
  · have horders : (s.withoutOrder orderId).orders =
        s.orders.filter fun o => o.id ∉ [orderId] :=
      List.filter_congr fun o _ => by simp [bne, beq_eq_decide]
    have hlines : (s.withoutOrder orderId).lines =
        s.lines.filter fun l => l.orderId ∉ [orderId] := by
      rw [hs.lines_withoutOrder]
      exact List.filter_congr fun l _ => by simp [bne, beq_eq_decide]
    simp only [h.after, horders, hlines, Store.payments_withoutOrder hfirst hpending,
      hs.handOvers_withoutOrder hwaiting]
    rfl

/-- Whether it is committed or, with a count of zero, rolled back: the orders that may be deleted
are gone afterwards. -/
theorem exists_discardedEach {events : List StockEvent}
    (h : transact (reapWork settings call attemptId keptId) s = (.ok (count, events), t)) :
    ∃ es, DiscardedEach settings call.now call.ids (s.pendingIds attemptId keptId) s t count
      es := by
  obtain ⟨closing, u, hwork, hkept⟩ := transact_eq_ok.mp h
  simp only [reapWork, yields_bind, yields_get] at hwork
  obtain ⟨_, _, ⟨rfl, rfl⟩, ⟨deleted, es⟩, v, hdelete, hwork⟩ := hwork
  have hdiscarded := yields_deleteEach hdelete
  simp only at hwork
  split at hwork
  · next hzero =>
      obtain ⟨rfl, rfl⟩ := yields_pure.mp hwork
      cases hkept
      subst hzero
      obtain ⟨rfl, -⟩ := hdiscarded.of_zero
      exact ⟨es, hdiscarded⟩
  · simp only [yields_bind, yields_stored, yields_pure] at hwork
    obtain ⟨told, _, hevents, rfl, rfl⟩ := hwork
    cases hkept
    obtain rfl := Store.yields_events hevents
    exact ⟨es, hdiscarded⟩

/-- Of some orders, the deletable ones go, and they are counted. -/
theorem DiscardedEach.removes (h : DiscardedEach settings now ids orderIds s t count es)
    (hids : orderIds.Nodup) (hs : s.Intact) (hfirst : s.SettledFirst) :
    s.Removes settings now (orderIds.filter s.isDeletable) t ∧
      count = (orderIds.filter s.isDeletable).length := by
  induction h with
  | nil => exact ⟨Store.removes_nil, rfl⟩
  | keep hkept _ ih =>
      rw [List.filter_cons_of_neg (by simp [hkept])]
      exact ih (List.nodup_cons.mp hids).2 hs hfirst
  | @delete _ orderId rest s t u _ _ _ hdeleted _ ih =>
      obtain ⟨hnew, hrest⟩ := List.nodup_cons.mp hids
      have hremoved := hdeleted.removes hs hfirst
      have hothers : ∀ id ∈ rest, id ∉ [orderId] := fun id hid heq =>
        hnew (List.mem_singleton.mp heq ▸ hid)
      have hsame : rest.filter u.isDeletable = rest.filter s.isDeletable :=
        List.filter_congr fun id hid => hremoved.isDeletable_eq (hothers id hid)
      obtain ⟨hmore, hcount⟩ := ih hrest (hdeleted.intact hs)
        ((hdeleted.sameRows hs hfirst).settledFirst hfirst)
      rw [hsame] at hmore hcount
      rw [List.filter_cons_of_pos hdeleted.deletable]
      exact ⟨hremoved.append hmore fun id hid => hothers id (List.mem_of_mem_filter hid),
        by rw [hcount, List.length_cons]⟩

/-- Deletions take no payments and no marks away. -/
theorem DiscardedEach.keepsRows (h : DiscardedEach settings now ids orderIds s t count es)
    (hs : s.Intact) (hfirst : s.SettledFirst) :
    t.payments = s.payments ∧ t.handOvers = s.handOvers := by
  induction h with
  | nil => exact ⟨rfl, rfl⟩
  | keep _ _ ih => exact ih hs hfirst
  | delete hdeleted _ ih =>
      obtain ⟨_, -, rfl⟩ := hdeleted.removes hs hfirst
      exact ih (hdeleted.intact hs) ((hdeleted.sameRows hs hfirst).settledFirst hfirst)

/-- Whatever is done, the payments and the marks that are there stay in their places. -/
theorem Effect.keepsRows {action : Action} {answer : Answer}
    (h : Effect settings call s action answer t) (hs : s.Intact) (hfirst : s.SettledFirst) :
    s.payments <+: t.payments ∧ s.handOvers <+: t.handOvers := by
  cases h with
  | aside marks => exact ⟨List.prefix_rfl, List.prefix_append _ _⟩
  | catalogued | entered | purged => exact ⟨List.prefix_rfl, List.prefix_rfl⟩
  | placed _ hplaced =>
      obtain ⟨records, -, rfl⟩ := hplaced.after
      exact ⟨List.prefix_rfl, List.prefix_rfl⟩
  | paid _ hpaid =>
      obtain ⟨records, -, rfl⟩ := hpaid.after
      exact ⟨List.prefix_append _ _, List.prefix_rfl⟩
  | cancelled hreversed | refunded hreversed =>
      obtain ⟨o, -, -, rfl⟩ := hreversed
      exact ⟨List.prefix_rfl, List.prefix_rfl⟩
  | discarded hdiscarded =>
      obtain ⟨_, -, rfl⟩ := hdiscarded.removes hs hfirst
      exact ⟨List.prefix_rfl, List.prefix_rfl⟩
  | reaped hdiscarded =>
      obtain ⟨hpayments, hmarks⟩ := hdiscarded.keepsRows hs hfirst
      rw [hpayments, hmarks]
      exact ⟨List.prefix_rfl, List.prefix_rfl⟩

theorem yields_deletePending_kept (hkept : s.isDeletable orderId = false) :
    (deletePending settings now ids orderId).Yields s none s := by
  simp only [deletePending, yields_bind, yields_get, Store.yields_deleteIfPending]
  exact ⟨_, _, ⟨rfl, rfl⟩, false, _, ⟨hkept.symm, rfl⟩, yields_pure.mpr ⟨rfl, rfl⟩⟩

theorem yields_deleteEach_kept (hkept : ∀ id ∈ orderIds, s.isDeletable id = false) :
    (deleteEach settings now ids orderIds).Yields s (0, []) s := by
  induction orderIds generalizing ids with
  | nil => exact yields_pure.mpr ⟨rfl, rfl⟩
  | cons orderId rest ih =>
      obtain ⟨hfirst, hrest⟩ := List.forall_mem_cons.mp hkept
      simp only [deleteEach, yields_bind, yields_pure]
      exact ⟨none, s, yields_deletePending_kept hfirst, (0, []), s, ih hrest, rfl, rfl⟩

/-- Where none of the orders of an attempt may be deleted, the call tells so and does nothing. -/
theorem reap_kept {shop : Shop}
    (hkept : ∀ id ∈ shop.store.pendingIds attemptId keptId, shop.store.isDeletable id = false) :
    shop.reap call attemptId keptId = (.ok 0, shop) := by
  have hwork : (reapWork shop.settings call attemptId keptId).Yields shop.store
      (.rollback (0, [])) shop.store := by
    simp only [reapWork, yields_bind, yields_get]
    exact ⟨_, _, ⟨rfl, rfl⟩, (0, []), _, yields_deleteEach_kept hkept, yields_pure.mpr ⟨rfl, rfl⟩⟩
  exact commit_eq_ok.mpr ⟨[], _, transact_eq_ok.mpr ⟨_, _, hwork, rfl⟩, rfl⟩

end Shop

namespace Store

variable {s : Store}

/-- The orders that a call on an attempt deletes are those that it names and that may go. -/
theorem pendingIds_filter (hids : (s.orders.map (·.id)).Nodup) (attemptId keptId : String) :
    (s.pendingIds attemptId keptId).filter s.isDeletable = (s.orders.filter fun o =>
      o.attemptId = some attemptId ∧ o.id ≠ keptId ∧ s.MayGo o).map (·.id) := by
  rw [pendingIds, List.filter_map, List.filter_filter]
  congr 1
  refine List.filter_congr fun o ho => ?_
  rw [Function.comp_apply, Bool.eq_iff_iff, Bool.and_eq_true, isDeletable_iff_mayGo hids ho]
  simp only [Bool.and_eq_true, beq_iff_eq, bne_iff_ne, decide_eq_true_eq]
  constructor
  · rintro ⟨hmay, ⟨hattempt, hkept⟩, -⟩
    exact ⟨hattempt, hkept, hmay⟩
  · rintro ⟨hattempt, hkept, hmay⟩
    exact ⟨hmay, ⟨hattempt, hkept⟩, hmay.1⟩

/-- The order that a call on its id deletes. -/
theorem singleton_filter (hids : (s.orders.map (·.id)).Nodup) (orderId : String) :
    [orderId].filter s.isDeletable =
      (s.orders.filter fun o => o.id = orderId ∧ s.MayGo o).map (·.id) := by
  have hnodup : ((s.orders.filter fun o => o.id = orderId ∧ s.MayGo o).map (·.id)).Nodup :=
    hids.sublist (List.filter_sublist.map _)
  have hmem (id : String) : id ∈ (s.orders.filter fun o => o.id = orderId ∧ s.MayGo o).map (·.id) ↔
      id = orderId ∧ s.isDeletable orderId = true := by
    simp only [List.mem_map, List.mem_filter, decide_eq_true_eq]
    constructor
    · rintro ⟨o, ⟨ho, rfl, hmay⟩, rfl⟩
      exact ⟨rfl, (isDeletable_iff_mayGo hids ho).mpr hmay⟩
    · rintro ⟨rfl, hdeletable⟩
      obtain ⟨o, ho, rfl⟩ := exists_of_isDeletable hdeletable
      exact ⟨o, ⟨ho, rfl, (isDeletable_iff_mayGo hids ho).mp hdeletable⟩, rfl⟩
  cases hdeletable : s.isDeletable orderId with
  | false =>
      rw [List.filter_cons_of_neg (by simp [hdeletable]), List.filter_nil, eq_comm,
        List.eq_nil_iff_forall_not_mem]
      intro id hid
      rw [((hmem id).mp hid).2] at hdeletable
      cases hdeletable
  | true =>
      rw [List.filter_cons_of_pos hdeletable, List.filter_nil, eq_comm, ← List.perm_singleton]
      refine (List.perm_ext_iff_of_nodup hnodup (List.nodup_singleton _)).mpr fun id => ?_
      rw [hmem, List.mem_singleton, and_iff_left hdeletable]

end Store

namespace Shop

variable {settings : Settings} {call : Call} {shop after : Shop}
  {attemptId keptId orderId : String}

theorem reap_eq_ok {count : Nat} (hs : shop.store.Intact) (hfirst : shop.store.SettledFirst)
    (h : shop.reap call attemptId keptId = (.ok count, after)) :
    let gone := (shop.store.pendingIds attemptId keptId).filter shop.store.isDeletable
    count = gone.length ∧ shop.store.Removes shop.settings call.now gone after.store := by
  intro gone
  have hids : (shop.store.pendingIds attemptId keptId).Nodup :=
    hs.orderIds.sublist (List.filter_sublist.map _)
  obtain ⟨events, t, htransact, rfl⟩ := commit_eq_ok.mp h
  obtain ⟨es, hdiscarded⟩ := exists_discardedEach htransact
  exact (hdiscarded.removes hids hs hfirst).symm

/-- What is pending for the attempt afterwards was so before, and it was kept. -/
theorem reap_again {gone : List String} (again : Call)
    (hgone : gone = (shop.store.pendingIds attemptId keptId).filter shop.store.isDeletable)
    (hremoves : shop.store.Removes settings call.now gone after.store) :
    after.reap again attemptId keptId = (.ok 0, after) := by
  refine reap_kept fun id hid => ?_
  by_cases hdeleted : id ∈ gone
  · exact hremoves.isDeletable_false hdeleted
  · have hpending : id ∈ shop.store.pendingIds attemptId keptId := by
      obtain ⟨es, -, hafter⟩ := hremoves
      rw [hafter] at hid
      obtain ⟨o, ho, rfl⟩ := List.mem_map.mp hid
      obtain ⟨ho, hmatches⟩ := List.mem_filter.mp ho
      exact List.mem_map_of_mem (List.mem_filter.mpr ⟨List.mem_of_mem_filter ho, hmatches⟩)
    rw [hremoves.isDeletable_eq hdeleted, ← Bool.not_eq_true]
    intro hdeletable
    exact hdeleted (hgone ▸ List.mem_filter.mpr ⟨hpending, hdeletable⟩)

theorem discard_eq_ok {deleted : Bool} (hs : shop.store.Intact)
    (hfirst : shop.store.SettledFirst)
    (h : shop.discard call orderId = (.ok deleted, after)) :
    let gone := [orderId].filter shop.store.isDeletable
    deleted.toNat = gone.length ∧
      shop.store.Removes shop.settings call.now gone after.store := by
  intro gone
  obtain ⟨events, t, htransact, rfl⟩ := commit_eq_ok.mp h
  rcases transact_discardWork htransact with ⟨rfl, es, hdiscarded, -⟩ | ⟨rfl, hstays, -, rfl⟩
  · have hgone : gone = [orderId] := List.filter_cons_of_pos hdiscarded.deletable
    rw [hgone]
    exact ⟨rfl, hdiscarded.removes hs hfirst⟩
  · have hgone : gone = [] := List.filter_cons_of_neg (by simp [hstays])
    rw [hgone]
    exact ⟨rfl, Store.removes_nil⟩

/-- After the call the order is not deletable, whether it was deleted or kept. -/
theorem discard_again {gone : List String} (again : Call)
    (hgone : gone = [orderId].filter shop.store.isDeletable)
    (hremoves : shop.store.Removes settings call.now gone after.store) :
    after.discard again orderId = (.ok false, after) := by
  have hkept : after.store.isDeletable orderId = false := by
    by_cases hdeleted : orderId ∈ gone
    · exact hremoves.isDeletable_false hdeleted
    · rw [hremoves.isDeletable_eq hdeleted, ← Bool.not_eq_true]
      intro hdeletable
      exact hdeleted (hgone ▸ List.mem_filter.mpr ⟨List.mem_singleton_self _, hdeletable⟩)
  exact commit_eq_ok.mpr ⟨[], _, discard_kept hkept, rfl⟩

end Shop

namespace Run

variable {settings : Settings} {turns : List Turn} {shop after : Shop}

/-- The payments and the marks that were there before a turn of a run are there at its end. -/
theorem keepsRows (hrun : Run settings turns shop) {turn : Turn} (hturn : turn ∈ turns) :
    turn.before.store.payments <+: shop.store.payments ∧
      turn.before.store.handOvers <+: shop.store.handOvers := by
  induction hrun with
  | opened => cases hturn
  | act call action hrun ih =>
      obtain ⟨hpayments, hmarks⟩ :=
        (hrun.effect call action).keepsRows hrun.intact hrun.settledFirst
      rcases List.mem_append.mp hturn with hturn | hturn
      · obtain ⟨hearlier, hmarked⟩ := ih hturn
        exact ⟨hearlier.trans hpayments, hmarked.trans hmarks⟩
      · rw [List.mem_singleton.mp hturn]
        exact ⟨hpayments, hmarks⟩

/-- After every run: a cleanup of an attempt that succeeds deletes exactly the orders of the
attempt that are pending, are not the one to be kept and have no line handed over, and returns
their number. With them go their lines and nothing else, and the ledger gets one entry for each of
these lines that moves stock. The same call right afterwards returns 0 and changes nothing. A
single order is deleted under the same conditions. All the while no payment and no mark of a line
has disappeared. -/
theorem cleanup_removes_what_it_may (hrun : Run settings turns shop) (call : Call) :
    (∀ attemptId keptId count after, shop.reap call attemptId keptId = (.ok count, after) →
      let gone := shop.store.orders.filter fun o =>
        o.attemptId = some attemptId ∧ o.id ≠ keptId ∧ shop.store.MayGo o
      count = gone.length ∧
      shop.store.Removes settings call.now (gone.map (·.id)) after.store ∧
      ∀ again, after.reap again attemptId keptId = (.ok 0, after)) ∧
    (∀ orderId deleted after, shop.discard call orderId = (.ok deleted, after) →
      let gone := shop.store.orders.filter fun o => o.id = orderId ∧ shop.store.MayGo o
      deleted.toNat = gone.length ∧
      shop.store.Removes settings call.now (gone.map (·.id)) after.store ∧
      ∀ again, after.discard again orderId = (.ok false, after)) ∧
    ∀ turn ∈ turns, turn.before.store.payments <+: shop.store.payments ∧
      turn.before.store.handOvers <+: shop.store.handOvers := by
  have hids := hrun.intact.orderIds
  refine ⟨fun attemptId keptId count after h => ?_, fun orderId deleted after h => ?_,
    fun turn hturn => hrun.keepsRows hturn⟩
  · intro gone
    have hgone := Store.pendingIds_filter hids attemptId keptId
    obtain ⟨hcount, hremoves⟩ := Shop.reap_eq_ok hrun.intact hrun.settledFirst h
    rw [hgone, hrun.settings_eq] at hremoves
    rw [hgone, List.length_map] at hcount
    exact ⟨hcount, hremoves, fun again => Shop.reap_again again hgone.symm hremoves⟩
  · intro gone
    have hgone := Store.singleton_filter hids orderId
    obtain ⟨hdeleted, hremoves⟩ := Shop.discard_eq_ok hrun.intact hrun.settledFirst h
    rw [hgone, hrun.settings_eq] at hremoves
    rw [hgone, List.length_map] at hdeleted
    exact ⟨hdeleted, hremoves, fun again => Shop.discard_again again hgone.symm hremoves⟩

/-- On three days a till orders soup for the same attempt, since its answer has expired each time.
The second soup is handed over. -/
def threeAttempts : List (Call × Action) :=
  let soup : OrderRequest := ⟨some "c-7", none, .pos, some "till-1", [⟨"soup", 2, []⟩]⟩
  [(Call.on 20000 'a',
      .addProduct ⟨"soup", "Soup", .simple, ⟨850⟩, true, ⟨20000, 0, 0⟩, ⟨20000, 0, 0⟩⟩),
   (Call.on 20000 'b', .operate (.place soup)),
   (Call.on 20010 'c', .operate (.place soup)),
   (Call.on 20020 'd', .operate (.place soup)),
   (Call.on 20020 'e', .operate (.handOverLines ["c."]))]

/-- The last order is kept and the second one stays because of its mark, so the first one goes. -/
theorem cleanup_of_threeAttempts :
    let shop := (play Settings.standard threeAttempts).2
    ∃ after, shop.reap (Call.on 20020 'f') "till-1" "d" = (.ok 1, after) ∧
      shop.store.Removes Settings.standard ⟨20020, 0, 0⟩ ["b"] after.store ∧
      ∀ again, after.reap again "till-1" "d" = (.ok 0, after) := by
  intro shop
  have hreaped : (shop.reap (Call.on 20020 'f') "till-1" "d").1 = .ok 1 := by decide +kernel
  have hgone : (shop.store.orders.filter fun o =>
      o.attemptId = some "till-1" ∧ o.id ≠ "d" ∧ shop.store.MayGo o).map (·.id) = ["b"] := by
    decide +kernel
  obtain ⟨-, hremoves, hagain⟩ := (cleanup_removes_what_it_may
    (run_play Settings.standard threeAttempts) (Call.on 20020 'f')).1 "till-1" "d" 1 _
    (Prod.ext hreaped rfl)
  rw [hgone] at hremoves
  exact ⟨_, Prod.ext hreaped rfl, hremoves, hagain⟩

end Run

end OrderLedger
