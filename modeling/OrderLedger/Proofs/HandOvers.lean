import OrderLedger.Proofs.Order.Cleanup
import OrderLedger.Proofs.Shop.HandingOver
import OrderLedger.Proofs.Text.Bytes

/-!
Handing over along a run. A call marks exactly those of its lines that have no mark, and counts
them; no other action makes marks, and none takes them away. So the counts of a run add up to the
marks that are there at its end, and no line has two of them.
-/

namespace OrderLedger

open Work Text

def Action.handsOver : Action → Bool
  | .operate (.handOverLines _) | .operate (.handOverOrder _) => true
  | _ => false

def Answer.counted : Answer → Nat
  | .ok (.count n) => n
  | _ => 0

/-- How many lines the answer of a turn tells as handed over. -/
def Turn.handedOver (turn : Turn) : Nat :=
  if turn.action.handsOver then turn.answer.counted else 0

namespace Store

/-- The lines of an order that have no mark. -/
def unmarkedLines (s : Store) (orderId : String) : List Line :=
  (s.linesOf orderId).filter fun l => !s.isHandedOver l.id

theorem unmarked_linesOf (s : Store) (orderId : String) :
    s.unmarked ((s.linesOf orderId).map (·.id)) =
      ((s.unmarkedLines orderId).map (·.id)).toFinset := by
  ext id
  simp only [unmarked, unmarkedLines, Finset.mem_filter, List.mem_toFinset, List.mem_map,
    List.mem_filter, Bool.not_eq_true']
  constructor
  · rintro ⟨⟨l, hl, rfl⟩, hunmarked⟩
    exact ⟨l, ⟨hl, hunmarked⟩, rfl⟩
  · rintro ⟨l, ⟨hl, hunmarked⟩, rfl⟩
    exact ⟨⟨l, hl, rfl⟩, hunmarked⟩

/-- Since lines have different ids, counting the ids is counting the lines. -/
theorem Intact.card_unmarkedLines {s : Store} (hs : s.Intact) (orderId : String) :
    ((s.unmarkedLines orderId).map (·.id)).toFinset.card = (s.unmarkedLines orderId).length := by
  have hsublist : (s.unmarkedLines orderId).Sublist s.lines :=
    List.filter_sublist.trans List.filter_sublist
  rw [List.toFinset_card_of_nodup (hs.lineIds.sublist (hsublist.map _)), List.length_map]

end Store

namespace Shop

variable {shop : Shop} {call : Call} {orderId : String} {lineIds : List String} {o : Order}
  {count : Nat} {t : Store}

/-! ## What other actions leave -/

private theorem commit_keepsMarks {α : Type} {work : Work ShopError (Closing (α × List StockEvent))}
    (h : ∀ a events t, transact work shop.store = (.ok (a, events), t) →
      t.handOvers = shop.store.handOvers) :
    (shop.commit work).2.store.handOvers = shop.store.handOvers := by
  rcases hcommit : shop.commit work with ⟨answer, after⟩
  cases answer with
  | error f => rw [commit_eq_error hcommit]
  | ok a =>
      obtain ⟨events, t, htransact, rfl⟩ := commit_eq_ok.mp hcommit
      exact h a events t htransact

theorem place_keepsMarks (call : Call) (r : OrderRequest) (shop : Shop) :
    (shop.place call r).2.store.handOvers = shop.store.handOvers := by
  unfold place
  split
  · rfl
  · rfl
  · split
    · rfl
    · apply commit_keepsMarks
      intro o events t h
      rcases transact_placeWork h with ⟨-, hplaced, -⟩ | ⟨-, -, rfl⟩
      · obtain ⟨records, -, rfl⟩ := hplaced.after
        rfl
      · rfl

theorem pay_keepsMarks (call : Call) (orderId : String) (tenders : List Tender)
    (key : Option String) (shop : Shop) :
    (shop.pay call orderId tenders key).2.store.handOvers = shop.store.handOvers := by
  have hcommit : (shop.commit (silently
      (payWork shop.settings call orderId tenders key))).2.store.handOvers =
      shop.store.handOvers := by
    apply commit_keepsMarks
    intro o events t h
    rcases transact_payWork h with ⟨-, ⟨-, hpaid⟩ | ⟨-, rfl⟩⟩
    · obtain ⟨records, -, rfl⟩ := hpaid.after
      rfl
    · rfl
  unfold pay
  split
  · rfl
  · rfl
  · split
    · next heq => rwa [heq] at hcommit
    · next heq => rwa [heq] at hcommit

theorem append_keepsMarks (call : Call) (entries : List StockEntry) (shop : Shop) :
    (shop.append call entries).2.store.handOvers = shop.store.handOvers := by
  rcases happend : shop.append call entries with ⟨answer, after⟩
  cases answer with
  | error f => rw [append_eq_error happend]
  | ok events =>
      obtain ⟨rfl, -⟩ := append_eq_ok happend
      rfl

theorem enter_keepsMarks (call : Call) (productId : String) (delta : Int) (reason : Reason)
    (actor : String) (shop : Shop) :
    (shop.enter call productId delta reason actor).2.store.handOvers = shop.store.handOvers := by
  rcases henter : shop.enter call productId delta reason actor with ⟨answer, after⟩
  cases answer with
  | error f => rw [enter_eq_error henter]
  | ok event =>
      obtain ⟨rfl, -⟩ := enter_eq_ok henter
      rfl

theorem reverse_keepsMarks {target : Status} {reason : Reason} :
    (shop.commit (reverseWork shop.settings call orderId target reason)).2.store.handOvers =
      shop.store.handOvers := by
  apply commit_keepsMarks
  intro a events t h
  obtain ⟨⟨o, -, -, rfl⟩, -⟩ := transact_reverseWork h
  rfl

theorem discard_keepsMarks (hs : shop.store.Intact) (hfirst : shop.store.SettledFirst) :
    (shop.discard call orderId).2.store.handOvers = shop.store.handOvers := by
  apply commit_keepsMarks
  intro deleted events t h
  rcases transact_discardWork h with ⟨-, es, hdiscarded, -⟩ | ⟨-, -, -, rfl⟩
  · obtain ⟨_, -, rfl⟩ := hdiscarded.removes hs hfirst
    rfl
  · rfl

theorem reap_keepsMarks {attemptId keptId : String} (hs : shop.store.Intact)
    (hfirst : shop.store.SettledFirst) :
    (shop.reap call attemptId keptId).2.store.handOvers = shop.store.handOvers := by
  apply commit_keepsMarks
  intro count events t h
  obtain ⟨es, hdiscarded⟩ := exists_discardedEach h
  exact (hdiscarded.keepsRows hs hfirst).2

/-- A change of the catalog makes no marks. -/
theorem change_keepsMarks {work : Work StorageError Unit}
    (h : ∀ t, work.Yields shop.store () t → t.handOvers = shop.store.handOvers) :
    (shop.change (transactAll work)).2.store.handOvers = shop.store.handOvers := by
  rcases hwork : transactAll work shop.store with ⟨answer, t⟩
  unfold change
  rw [hwork]
  cases answer with
  | error f => rw [transact_eq_error hwork]
  | ok u => exact h t (transactAll_eq_ok.mp hwork)

/-! ## What every action counts -/

theorem handOverLines_gainsMarks (call : Call) (lineIds : List String) (shop : Shop) :
    let result := shop.handOverLines call lineIds
    Store.GainsMarks call.ids shop.store result.2.store
      (Answer.counted (result.1.map .count)) := by
  intro result
  rcases hresult : result with ⟨answer, after⟩
  cases answer with
  | error f =>
      rw [commit_eq_error hresult]
      exact Store.gainsMarks_same _ rfl
  | ok count => exact Store.yields_handOver_gains (yields_of_handOverLines hresult)

theorem handOverOrder_gainsMarks (call : Call) (orderId : String) (shop : Shop) :
    let result := shop.handOverOrder call orderId
    Store.GainsMarks call.ids shop.store result.2.store
      (Answer.counted (result.1.map .count)) := by
  intro result
  cases hfound : shop.store.order? orderId with
  | none =>
      simp only [result, handOverOrder_absent call hfound]
      exact Store.gainsMarks_same _ rfl
  | some o =>
      by_cases hpaid : o.status = .paid
      · simp only [result, handOverOrder_of_paid call hfound hpaid]
        exact handOverLines_gainsMarks call _ shop
      · simp only [result, handOverOrder_unpaid call hfound hpaid]
        exact Store.gainsMarks_same _ rfl

/-- After every action there are as many marks more as it tells, and they have its ids. -/
theorem act_gainsMarks (call : Call) (action : Action) (hs : shop.store.Intact)
    (hfirst : shop.store.SettledFirst) :
    let turn : Turn := ⟨call, action, shop⟩
    Store.GainsMarks call.ids shop.store turn.after.store turn.handedOver := by
  intro turn
  have hsame {after : Store} (h : after.handOvers = shop.store.handOvers) :
      Store.GainsMarks call.ids shop.store after 0 := Store.gainsMarks_same call.ids h
  cases action with
  | operate operation =>
      cases operation with
      | place r => exact hsame (place_keepsMarks call r shop)
      | pay orderId tenders key => exact hsame (pay_keepsMarks call orderId tenders key shop)
      | cancel orderId => exact hsame reverse_keepsMarks
      | refund orderId => exact hsame reverse_keepsMarks
      | discard orderId => exact hsame (discard_keepsMarks hs hfirst)
      | reap attemptId keptId => exact hsame (reap_keepsMarks hs hfirst)
      | handOverLines lineIds => exact handOverLines_gainsMarks call lineIds shop
      | handOverOrder orderId => exact handOverOrder_gainsMarks call orderId shop
      | append entries => exact hsame (append_keepsMarks call entries shop)
      | enter productId delta reason actor =>
          exact hsame (enter_keepsMarks call productId delta reason actor shop)
      | purge => exact hsame rfl
  | addProduct p =>
      refine hsame (change_keepsMarks fun t h => ?_)
      rw [(Store.insertProduct_eq_ok.mp (yields_execute.mp h)).2.2]
  | addSlot slot =>
      refine hsame (change_keepsMarks fun t h => ?_)
      obtain ⟨-, rfl⟩ := Store.yields_insertSlotWork.mp h
      rfl
  | setActive id isActive =>
      refine hsame (change_keepsMarks fun t h => ?_)
      rw [Store.updateActive_eq_ok (yields_execute.mp h)]
  | attend change => exact hsame rfl

end Shop

namespace Run

variable {settings : Settings} {turns : List Turn} {shop : Shop} {call : Call}
  {orderId : String} {lineIds : List String}

/-- The marks of a run have the ids of its calls, they are as many as its answers have counted,
and no line has two. -/
theorem marks (hrun : Run settings turns shop) :
    (∀ h ∈ shop.store.handOvers, ∃ turn ∈ turns, ∃ n, h.id = turn.call.ids n) ∧
      (turns.map Turn.handedOver).sum = shop.store.handOvers.length ∧
      (shop.store.handOvers.map (·.lineId)).Nodup := by
  induction hrun with
  | opened => exact ⟨List.forall_mem_nil _, rfl, .nil⟩
  | @act turns shop call action hrun ih =>
      obtain ⟨hdrawn, hsum, hnodup⟩ := ih
      have hgains := Shop.act_gainsMarks call action hrun.intact hrun.settledFirst
      refine ⟨fun h hh => ?_, ?_, hgains.once hnodup⟩
      · rcases hgains.drawn h hh with hold | ⟨n, hid⟩
        · obtain ⟨turn, hturn, n, hid⟩ := hdrawn h hold
          exact ⟨turn, List.mem_append_left _ hturn, n, hid⟩
        · exact ⟨_, List.mem_append_right _ List.mem_cons_self, n, hid⟩
      · rw [List.map_append, List.sum_append, hsum, List.map_singleton, List.sum_singleton]
        exact hgains.count.symm

/-- Lines of the store are handed over by a call with new ids, and another call has nothing left
to do. -/
theorem exists_handOverLines (hrun : Run settings turns shop)
    (hdistinct : Function.Injective call.ids)
    (hnew : ∀ turn ∈ turns, ∀ m n, turn.call.ids m ≠ call.ids n)
    (hstored : ∀ id ∈ lineIds, shop.store.hasLine id = true) :
    ∃ t, shop.handOverLines call lineIds =
        (.ok (shop.store.unmarked lineIds).card, { shop with store := t }) ∧
      shop.store.Marks (shop.store.unmarked lineIds) t ∧
      ∀ again, { shop with store := t }.handOverLines again lineIds =
        (.ok 0, { shop with store := t }) := by
  have hunused (m : Nat) : ∀ h ∈ shop.store.handOvers, h.id ≠ call.ids m := by
    intro h hh heq
    obtain ⟨turn, hturn, n, hid⟩ := hrun.marks.1 h hh
    exact hnew turn hturn n m (hid.symm.trans heq)
  obtain ⟨t, hmarks, hyields⟩ := Store.exists_marks call.now hdistinct hunused hstored
  refine ⟨t, Shop.handOverLines_of_yields hyields, hmarks, fun again => ?_⟩
  refine Shop.handOverLines_of_yields (Store.yields_handOver_done again.now again.ids ?_
    hmarks.isHandedOver)
  obtain ⟨marks, -, -, rfl⟩ := hmarks
  exact hstored

/-- Every line of a paid order is a line of the store, so handing the order over counts those of
them that have no mark. -/
theorem exists_handOverOrder (hrun : Run settings turns shop)
    (hdistinct : Function.Injective call.ids)
    (hnew : ∀ turn ∈ turns, ∀ m n, turn.call.ids m ≠ call.ids n)
    (hpaid : shop.store.statusOf orderId = some .paid) :
    ∃ t, shop.handOverOrder call orderId =
        (.ok (shop.store.unmarkedLines orderId).length, { shop with store := t }) ∧
      shop.store.Marks ((shop.store.unmarkedLines orderId).map (·.id)).toFinset t ∧
      ∀ again, { shop with store := t }.handOverOrder again orderId =
        (.ok 0, { shop with store := t }) := by
  obtain ⟨o, hfound, hstatus⟩ := Option.map_eq_some_iff.mp hpaid
  have hstored : ∀ id ∈ (shop.store.linesOf orderId).map (·.id), shop.store.hasLine id = true := by
    intro id hid
    obtain ⟨l, hl, rfl⟩ := List.mem_map.mp hid
    exact List.any_eq_true.mpr ⟨l, List.mem_of_mem_filter hl, beq_self_eq_true _⟩
  obtain ⟨t, hanswer, hmarks, hagain⟩ := hrun.exists_handOverLines hdistinct hnew hstored
  rw [Store.unmarked_linesOf, hrun.intact.card_unmarkedLines] at hanswer
  rw [Store.unmarked_linesOf] at hmarks
  refine ⟨t, by rw [Shop.handOverOrder_of_paid call hfound hstatus, hanswer], hmarks,
    fun again => ?_⟩
  have hsame : t.order? orderId = some o ∧ t.linesOf orderId = shop.store.linesOf orderId := by
    obtain ⟨marks, -, -, rfl⟩ := hmarks
    exact ⟨hfound, rfl⟩
  rw [Shop.handOverOrder_of_paid again hsame.1 hstatus, ← hagain again]
  change _ = Shop.handOverLines again (_) _
  rw [← hsame.2]

/-- After every run, for a call with new ids. A call for lines of which one is unknown tells the
least such id in the order of its bytes and writes nothing. Any other call for lines marks exactly
those of them that have no mark, each once, and returns their number. A call for a paid order does
the same for its lines; for a missing order and for an order in another status it writes nothing.
The same call right afterwards returns 0. So the counts that were answered add up to the marks,
and no line has two. -/
theorem lines_are_handed_over_once (hrun : Run settings turns shop) (call : Call) :
    (∀ lineIds missing, missing ∈ lineIds → shop.store.hasLine missing = false →
      (∀ id ∈ lineIds, shop.store.hasLine id = false → ¬ Utf8.bytes id < Utf8.bytes missing) →
      shop.handOverLines call lineIds =
        (.error (.error (.notFound "Order line" missing)), shop)) ∧
    (∀ orderId, shop.store.statusOf orderId = none →
      shop.handOverOrder call orderId = (.error (.error (.notFound "Order" orderId)), shop)) ∧
    (∀ orderId status, shop.store.statusOf orderId = some status → status ≠ .paid →
      shop.handOverOrder call orderId = (.error (.error (.notPaid orderId status)), shop)) ∧
    (Function.Injective call.ids → (∀ turn ∈ turns, ∀ m n, turn.call.ids m ≠ call.ids n) →
      (∀ lineIds, (∀ id ∈ lineIds, shop.store.hasLine id = true) →
        ∃ after, shop.handOverLines call lineIds =
            (.ok (shop.store.unmarked lineIds).card, after) ∧
          shop.store.Marks (shop.store.unmarked lineIds) after.store ∧
          ∀ again, after.handOverLines again lineIds = (.ok 0, after)) ∧
      ∀ orderId, shop.store.statusOf orderId = some .paid →
        let waiting := shop.store.unmarkedLines orderId
        ∃ after, shop.handOverOrder call orderId = (.ok waiting.length, after) ∧
          shop.store.Marks (waiting.map (·.id)).toFinset after.store ∧
          ∀ again, after.handOverOrder again orderId = (.ok 0, after)) ∧
    (turns.map Turn.handedOver).sum = shop.store.handOvers.length ∧
    (shop.store.handOvers.map (·.lineId)).Nodup := by
  refine ⟨?_, ?_, ?_, fun hdistinct hnew => ⟨?_, ?_⟩, hrun.marks.2.1, hrun.marks.2.2⟩
  · intro lineIds missing hmem hunknown hleast
    exact Shop.handOverLines_of_fails (Store.fails_handOver_least hmem hunknown
      fun id hid hno hlt => hleast id hid hno (Utf8.bytes_lt hlt))
  · intro orderId hnone
    exact Shop.handOverOrder_absent call (Option.map_eq_none_iff.mp hnone)
  · intro orderId status hstatus hunpaid
    obtain ⟨o, hfound, rfl⟩ := Option.map_eq_some_iff.mp hstatus
    exact Shop.handOverOrder_unpaid call hfound hunpaid
  · intro lineIds hstored
    obtain ⟨t, hanswer, hmarks, hagain⟩ := hrun.exists_handOverLines hdistinct hnew hstored
    exact ⟨_, hanswer, hmarks, hagain⟩
  · intro orderId hpaid waiting
    obtain ⟨t, hanswer, hmarks, hagain⟩ := hrun.exists_handOverOrder hdistinct hnew hpaid
    exact ⟨_, hanswer, hmarks, hagain⟩

/-- An order of two lines is paid, and its first line is handed over by a call that names it
twice. -/
def halfServed : List (Call × Action) :=
  [(Call.on 20000 'a',
      .addProduct ⟨"soup", "Soup", .simple, ⟨850⟩, true, ⟨20000, 0, 0⟩, ⟨20000, 0, 0⟩⟩),
   (Call.on 20000 'b',
      .operate (.place ⟨some "c-7", none, .pos, none, [⟨"soup", 2, []⟩, ⟨"soup", 1, []⟩]⟩)),
   (Call.on 20000 'c', .operate (.pay "b" [⟨.cash, ⟨2550⟩⟩] none)),
   (Call.on 20000 'd', .operate (.handOverLines ["b.", "b."]))]

/-- The rest of the order is its second line, and then there is nothing left. -/
theorem rest_of_halfServed :
    let played := play Settings.standard halfServed
    (played.1.map Turn.handedOver).sum = 1 ∧
    ∃ after, played.2.handOverOrder (Call.on 20000 'e') "b" = (.ok 1, after) ∧
      played.2.store.Marks {"b.."} after.store ∧
      ∀ again, after.handOverOrder again "b" = (.ok 0, after) := by
  intro played
  have hnew : ∀ turn ∈ played.1, ∀ m n, turn.call.ids m ≠ (Call.on 20000 'e').ids n := by
    intro turn hturn
    have hstep : (turn.call, turn.action) ∈ halfServed := by
      rw [← steps_play Settings.standard halfServed]
      exact List.mem_map_of_mem hturn
    have hletter : ∀ step ∈ halfServed, ∀ m n, step.1.ids m ≠ (Call.on 20000 'e').ids n := by
      simp only [halfServed, List.forall_mem_cons]
      exact ⟨Call.ids_on_ne (by decide) _ _, Call.ids_on_ne (by decide) _ _,
        Call.ids_on_ne (by decide) _ _, Call.ids_on_ne (by decide) _ _, List.forall_mem_nil _⟩
    exact hletter _ hstep
  have hmarks : played.2.store.handOvers.length = 1 := by decide +kernel
  have hpaid : played.2.store.statusOf "b" = some .paid := by decide +kernel
  have hwaiting : (played.2.store.unmarkedLines "b").map (·.id) = ["b.."] := by decide +kernel
  have hlength := congrArg List.length hwaiting
  obtain ⟨-, -, -, hcalls, hsum, -⟩ := lines_are_handed_over_once
    (run_play Settings.standard halfServed) (Call.on 20000 'e')
  obtain ⟨-, horders⟩ := hcalls (Call.ids_on_injective 20000 'e') hnew
  obtain ⟨after, hanswer, hgained, hagain⟩ := horders "b" hpaid
  rw [hwaiting] at hgained
  rw [List.length_map] at hlength
  rw [hlength] at hanswer
  exact ⟨hsum.trans hmarks, after, hanswer, hgained, hagain⟩

end Run

end OrderLedger
