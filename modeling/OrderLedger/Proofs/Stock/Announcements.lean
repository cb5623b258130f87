import OrderLedger.Proofs.Payment.Once
import OrderLedger.Proofs.Run.Basic
import OrderLedger.Proofs.Stock.Events

/-!
Every change of the ledger is announced. Each transaction offers the feed what is told of
the entries that it has appended, in the store that it leaves; over a run, the events of a
product therefore go on from one another and end with its stock.
-/

namespace OrderLedger

open Work

/-- Whether an action may append entries to the ledger. -/
def Action.movesStock : Action → Bool
  | .operate (.place _) | .operate (.cancel _) | .operate (.refund _) | .operate (.discard _)
  | .operate (.reap ..) | .operate (.append _) | .operate (.enter ..) => true
  | _ => false

/-- By its answer, the action has appended no entry. -/
inductive Action.IsQuiet : Action → Answer → Prop where
  | unmoving {action : Action} {answer : Answer} (h : action.movesStock = false) :
      IsQuiet action answer
  | failed {action : Action} {fault : Fault ShopError} : IsQuiet action (.error fault)
  | replayed {r : OrderRequest} {o : Outcome OrderReceipt} (h : o.replayed = true) :
      IsQuiet (.operate (.place r)) (.ok (.placed o))
  | kept {orderId : String} : IsQuiet (.operate (.discard orderId)) (.ok (.flag false))
  | noneLeft {attemptId keptId : String} :
      IsQuiet (.operate (.reap attemptId keptId)) (.ok (.count 0))

/-- What is entered by hand is entered by an action that is not quiet. -/
theorem Action.IsQuiet.entered_eq_nil {settings : Settings} {call : Call} {action : Action}
    {answer : Answer} (h : action.IsQuiet answer) : action.entered settings call answer = [] := by
  cases h with
  | unmoving hunmoving =>
      unfold Action.entered
      split
      · cases hunmoving
      · cases hunmoving
      · rfl
  | failed => exact action.entered_error settings call _
  | _ => rfl

namespace Shop

variable {settings : Settings} {call : Call} {now : Time.Instant} {shop after : Shop}
  {s t : Store} {events : List StockEvent}

theorem Effect.entries_eq {action : Action} {answer : Answer}
    (heffect : Effect settings call s action answer t) (hquiet : action.IsQuiet answer) :
    t.entries = s.entries := by
  cases heffect with
  | aside marks => rfl
  | catalogued => rfl
  | placed =>
      cases hquiet with
      | unmoving h => cases h
      | replayed h => cases h
  | paid _ hpaid =>
      obtain ⟨records, -, rfl⟩ := hpaid.after
      rfl
  | cancelled =>
      cases hquiet with
      | unmoving h => cases h
  | refunded =>
      cases hquiet with
      | unmoving h => cases h
  | discarded =>
      cases hquiet with
      | unmoving h => cases h
  | reaped hdiscarded =>
      cases hquiet with
      | unmoving h => cases h
      | noneLeft => rw [hdiscarded.of_zero.1]
  | entered => rw [hquiet.entered_eq_nil, List.append_nil]
  | purged => rfl

/-- The events tell of the entries that a store has gained. -/
def Tells (now : Time.Instant) (s t : Store) (events : List StockEvent) : Prop :=
  ∃ es, t.entries = s.entries ++ es ∧ (Store.events es now).Yields t events t

theorem tells_nothing (now : Time.Instant) (h : t.entries = s.entries) : Tells now s t [] := by
  refine ⟨[], ?_, Store.yields_events_nil t now⟩
  rw [h, List.append_nil]

/-- What a shop has gained is told to the feed, and nothing else is. -/
def Announced (now : Time.Instant) (shop after : Shop) : Prop :=
  ∃ events, Tells now shop.store after.store events ∧
    after.feed = shop.feed.publishAll events

theorem announced_nothing (now : Time.Instant) (hentries : after.store.entries = shop.store.entries)
    (hfeed : after.feed = shop.feed) : Announced now shop after :=
  ⟨[], tells_nothing now hentries, hfeed⟩

/-- A transaction announces what it tells of wherever it answers. -/
theorem announced_commit {α : Type} {work : Work ShopError (Closing (α × List StockEvent))}
    {answer : Except (Fault ShopError) α} (h : shop.commit work = (answer, after))
    (htells : ∀ a events t, transact work shop.store = (.ok (a, events), t) →
      Tells now shop.store t events) : Announced now shop after := by
  cases answer with
  | error fault =>
      rw [commit_eq_error h]
      exact announced_nothing now rfl rfl
  | ok a =>
      obtain ⟨events, t, htransact, rfl⟩ := commit_eq_ok.mp h
      exact ⟨events, htells a events t htransact, rfl⟩

theorem tells_place {d : Draft} {o : Outcome OrderReceipt}
    (h : transact (placeWork settings call d) s = (.ok (o, events), t)) :
    Tells call.now s t events := by
  rcases transact_placeWork h with ⟨-, hplaced, es, hsales, hevents⟩ | ⟨-, rfl, rfl⟩
  · refine ⟨es, ?_, hevents⟩
    obtain ⟨records, -, rfl⟩ := hplaced.after
    rw [sales_eq_ok hsales]
  · exact tells_nothing call.now rfl

theorem place_announced (call : Call) (r : OrderRequest) (shop : Shop) :
    Announced call.now shop (shop.place call r).2 := by
  unfold place
  split
  · exact announced_nothing call.now rfl rfl
  · exact announced_nothing call.now rfl rfl
  · split
    · exact announced_nothing call.now rfl rfl
    · exact announced_commit rfl fun _ _ _ => tells_place

theorem tells_reverse {orderId : String} {target : Status} {reason : Reason} {o : Order}
    (h : transact (reverseWork settings call orderId target reason) s = (.ok (o, events), t)) :
    Tells call.now s t events := by
  obtain ⟨⟨o', -, -, rfl⟩, -, hevents⟩ := transact_reverseWork h
  exact ⟨_, rfl, hevents⟩

theorem tells_discard {orderId : String} {deleted : Bool}
    (h : transact (discardWork settings call orderId) s = (.ok (deleted, events), t)) :
    Tells call.now s t events := by
  rcases transact_discardWork h with ⟨-, es, hdiscarded, hevents⟩ | ⟨-, -, rfl, rfl⟩
  · refine ⟨es, ?_, hevents⟩
    rw [hdiscarded.after]
  · exact tells_nothing call.now rfl

theorem tells_reap {attemptId keptId : String} {count : Nat}
    (h : transact (reapWork settings call attemptId keptId) s = (.ok (count, events), t)) :
    Tells call.now s t events := by
  rcases transact_reapWork h with ⟨-, es, hdiscarded, hevents⟩ | ⟨-, rfl, rfl⟩
  · exact ⟨es, hdiscarded.entries_eq, hevents⟩
  · exact tells_nothing call.now rfl

theorem append_announced (call : Call) (entries : List StockEntry) (shop : Shop) :
    Announced call.now shop (shop.append call entries).2 := by
  rcases happend : shop.append call entries with ⟨answer, after⟩
  cases answer with
  | error fault =>
      rw [append_eq_error happend]
      exact announced_nothing call.now rfl rfl
  | ok events =>
      obtain ⟨rfl, hevents⟩ := append_eq_ok happend
      exact ⟨events, ⟨entries, rfl, hevents⟩, rfl⟩

theorem enter_announced (call : Call) (productId : String) (delta : Int) (reason : Reason)
    (actor : String) (shop : Shop) :
    Announced call.now shop (shop.enter call productId delta reason actor).2 := by
  rcases henter : shop.enter call productId delta reason actor with ⟨answer, after⟩
  cases answer with
  | error fault =>
      rw [enter_eq_error henter]
      exact announced_nothing call.now rfl rfl
  | ok event =>
      obtain ⟨rfl, hevents⟩ := enter_eq_ok henter
      exact ⟨[event], ⟨_, rfl, hevents⟩, rfl⟩

/-- An action that appends nothing announces nothing. -/
theorem announced_unmoving (call : Call) (action : Action) (h : action.movesStock = false)
    (hfeed : (shop.act call action).2.feed = shop.feed) :
    Announced call.now shop (shop.act call action).2 :=
  announced_nothing call.now ((act_effect call action shop).2.entries_eq (.unmoving h)) hfeed

theorem perform_announced (call : Call) (operation : Operation) (shop : Shop) :
    Announced call.now shop (shop.perform call operation).2 := by
  cases operation with
  | place r => exact place_announced call r shop
  | pay orderId tenders key =>
      exact announced_unmoving call (.operate (.pay orderId tenders key)) rfl
        (pay_feed call orderId tenders key shop)
  | cancel orderId => exact announced_commit rfl fun _ _ _ => tells_reverse
  | refund orderId => exact announced_commit rfl fun _ _ _ => tells_reverse
  | discard orderId => exact announced_commit rfl fun _ _ _ => tells_discard
  | reap attemptId keptId => exact announced_commit rfl fun _ _ _ => tells_reap
  | handOverLines lineIds =>
      exact announced_unmoving call (.operate (.handOverLines lineIds)) rfl
        (silently_feed _ shop)
  | handOverOrder orderId =>
      exact announced_unmoving call (.operate (.handOverOrder orderId)) rfl
        (silently_feed _ shop)
  | append entries => exact append_announced call entries shop
  | enter productId delta reason actor =>
      exact enter_announced call productId delta reason actor shop
  | purge => exact announced_unmoving call (.operate .purge) rfl rfl

theorem Announced.unless {attended : Prop} (h : Announced now shop after) :
    ∃ events, Tells now shop.store after.store events ∧
      (¬ attended → after.feed = shop.feed.publishAll events) := by
  obtain ⟨events, htells, hfeed⟩ := h
  exact ⟨events, htells, fun _ => hfeed⟩

/-- Whatever happens to a shop, what its ledger gains is told, and told to the feed unless
the feed is changed by its subscribers. -/
theorem act_tells (call : Call) (action : Action) (shop : Shop) :
    ∃ events, Tells call.now shop.store (shop.act call action).2.store events ∧
      ((¬ ∃ change, action = .attend change) →
        (shop.act call action).2.feed = shop.feed.publishAll events) := by
  cases action with
  | operate operation => exact (perform_announced call operation shop).unless
  | addProduct p => exact (announced_unmoving call (.addProduct p) rfl rfl).unless
  | addSlot slot => exact (announced_unmoving call (.addSlot slot) rfl rfl).unless
  | setActive id isActive =>
      exact (announced_unmoving call (.setActive id isActive) rfl rfl).unless
  | attend change =>
      exact ⟨[], tells_nothing call.now rfl, fun hother => absurd ⟨change, rfl⟩ hother⟩

end Shop

namespace Turn

/-- The entries that the ledger has gained. -/
def gained (turn : Turn) : List StockEntry :=
  turn.after.store.entries.drop turn.before.store.entries.length

/-- What is told of the entries that the ledger has gained. -/
def told (turn : Turn) : List StockEvent :=
  StockEvent.telling turn.after.store turn.gained turn.call.now

theorem tells_told (turn : Turn) :
    turn.after.store.entries = turn.before.store.entries ++ turn.gained ∧
      (∀ e ∈ turn.gained, ∃ n, turn.after.store.stockOf e.productId = .ok n) ∧
      ((¬ ∃ change, turn.action = .attend change) →
        turn.after.feed = turn.before.feed.publishAll turn.told) := by
  obtain ⟨events, ⟨es, hentries, hevents⟩, hfeed⟩ :=
    Shop.act_tells turn.call turn.action turn.before
  have hgained : turn.gained = es := by
    rw [gained, after, hentries, List.drop_left]
  obtain ⟨rfl, hstock⟩ := Store.yields_events_eq hevents
  rw [told, hgained]
  exact ⟨hentries, hstock, hfeed⟩

theorem quiet (turn : Turn) (h : turn.action.IsQuiet turn.answer) :
    turn.gained = [] ∧ turn.told = [] := by
  have hentries := (Shop.act_effect turn.call turn.action turn.before).2.entries_eq h
  have hgained : turn.gained = [] := by
    rw [gained, after, hentries, List.drop_length]
  refine ⟨hgained, ?_⟩
  rw [told, hgained]
  rfl

end Turn

namespace Run

variable {settings : Settings} {turns : List Turn} {shop : Shop}

/-- Of all that is told in a run, the events of one product. -/
def toldOf (turns : List Turn) (productId : String) : List StockEvent :=
  (turns.flatMap Turn.told).filter fun event => event.productId == productId

theorem told_leads (hrun : Run settings turns shop) (productId : String) :
    LeadTo shop.store productId (toldOf turns productId) := by
  induction hrun with
  | opened => exact ⟨.nil, fun last hlast => nomatch hlast⟩
  | @act turns shop call action hrun ih =>
      obtain ⟨hentries, hstock, -⟩ := Turn.tells_told ⟨call, action, shop⟩
      rw [toldOf, List.flatMap_append, List.flatMap_singleton, List.filter_append]
      exact ih.extend hentries hstock

/-- In any run, each action announces what the ledger has gained by it: the feed is offered
one event for each product, with its net change and its stock, and no event where nothing is
gained. So the events of a product go on from one another, and end with its stock. -/
theorem changes_are_announced_once (hrun : Run settings turns shop) :
    (∀ turn ∈ turns,
      turn.after.store.entries = turn.before.store.entries ++ turn.gained ∧
      Announces turn.after.store turn.gained turn.told ∧
      ((¬ ∃ change, turn.action = .attend change) →
        turn.after.feed = turn.before.feed.publishAll turn.told) ∧
      (turn.action.IsQuiet turn.answer → turn.gained = [] ∧ turn.told = [])) ∧
    ∀ productId, LeadTo shop.store productId (toldOf turns productId) := by
  refine ⟨?_, hrun.told_leads⟩
  intro turn _
  obtain ⟨hentries, hstock, hfeed⟩ := turn.tells_told
  exact ⟨hentries, StockEvent.announces_telling hstock, hfeed, turn.quiet⟩

/-- Soup and bread are counted in one batch and ordered together, and the order is deleted. -/
def deletedLunch : List (Call × Action) :=
  [(Call.on 20000 'a',
      .addProduct ⟨"soup", "Soup", .simple, ⟨850⟩, true, ⟨20000, 0, 0⟩, ⟨20000, 0, 0⟩⟩),
   (Call.on 20000 'b',
      .addProduct ⟨"bread", "Bread", .simple, ⟨120⟩, true, ⟨20000, 0, 0⟩, ⟨20000, 0, 0⟩⟩),
   (Call.on 20000 'c', .operate (.append
      [⟨"x", "soup", 12, .openingBalance, .unknown, ⟨20000, 0, 0⟩⟩,
       ⟨"y", "bread", 40, .openingBalance, .unknown, ⟨20000, 0, 0⟩⟩,
       ⟨"z", "soup", -2, .correction, .unknown, ⟨20000, 0, 0⟩⟩])),
   (Call.on 20000 'd',
      .operate (.place ⟨some "d-1", none, .pos, none, [⟨"soup", 2, []⟩, ⟨"bread", 3, []⟩]⟩)),
   (Call.on 20000 'e', .operate (.discard "d")),
   (Call.on 20000 'f', .operate (.discard "d"))]

theorem told_of_deletedLunch :
    (toldOf (play Settings.standard deletedLunch).1 "soup").map
        (fun event => (event.delta, event.newStock)) = [(10, 10), (-2, 8), (2, 10)] ∧
    (play Settings.standard deletedLunch).2.store.stockOf "soup" = .ok 10 := by
  have htold : (toldOf (play Settings.standard deletedLunch).1 "soup").map
      (fun event => (event.delta, event.newStock)) = [(10, 10), (-2, 8), (2, 10)] := by
    decide +kernel
  have hlast : (toldOf (play Settings.standard deletedLunch).1 "soup").getLast?.map
      (·.newStock) = some 10 := by
    decide +kernel
  obtain ⟨last, hlast, hstock⟩ := Option.map_eq_some_iff.mp hlast
  refine ⟨htold, ?_⟩
  rw [((changes_are_announced_once (run_play _ _)).2 "soup").current last hlast, hstock]

end Run

end OrderLedger
