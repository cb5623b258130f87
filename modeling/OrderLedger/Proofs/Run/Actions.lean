import OrderLedger.Proofs.Order.Drafts
import OrderLedger.Proofs.Shop.GivingBack
import OrderLedger.Proofs.Shop.Paying
import OrderLedger.Proofs.Shop.Placing
import OrderLedger.Proofs.Shop.StockKeeping
import OrderLedger.Proofs.Store.Catalog
import OrderLedger.Shop.Operation

/-!
What may happen to a shop, and all that it can do to the store. Invariants of a run are
proved by cases on the effect of an action and never look at the programs again.
-/

namespace OrderLedger

open Work Calculation

inductive Action where
  | operate (operation : Operation)
  | addProduct (p : Product)
  | addSlot (slot : MenuSlot)
  | setActive (id : String) (isActive : Bool)
  /-- A subscriber comes, reads or leaves. -/
  | attend (change : Feed → Feed)

abbrev Answer := Except (Fault ShopError) Reply

/-- The receipt that an answer gives for an order that the call itself has placed. -/
def Answer.placed? : Answer → Option OrderReceipt
  | .ok (.placed o) => if o.replayed then none else some o.receipt
  | _ => none

/-- The receipt that an answer gives for a payment that the call itself has recorded. -/
def Answer.paid? : Answer → Option PaymentReceipt
  | .ok (.paid o) => if o.replayed then none else some o.receipt
  | _ => none

theorem Answer.placed?_replayed {o : Outcome OrderReceipt} (h : o.replayed = true) :
    Answer.placed? (Except.map Reply.placed (.ok o)) = none := if_pos h

theorem Answer.paid?_replayed {o : Outcome PaymentReceipt} (h : o.replayed = true) :
    Answer.paid? (Except.map Reply.paid (.ok o)) = none := if_pos h

/-- The entries that a caller has committed by hand. -/
def Action.entered (settings : Settings) (call : Call) : Action → Answer → List StockEntry
  | .operate (.append entries), .ok _ => entries
  | .operate (.enter productId delta reason actor), .ok _ =>
      [Shop.manualEntry settings call productId delta reason actor]
  | _, _ => []

theorem Action.entered_error (settings : Settings) (call : Call) (action : Action)
    (fault : Fault ShopError) : action.entered settings call (.error fault) = [] := by
  unfold Action.entered
  split
  · next hok => cases hok
  · next hok => cases hok
  · rfl

namespace Shop

/-- A change of the store that publishes nothing. -/
def change (work : Store → Except (Fault StorageError) Unit × Store) (shop : Shop) :
    Result Reply :=
  ((work shop.store).1.mapError (Fault.map ShopError.ofStorage) |>.map fun _ => .flag true,
   { shop with store := (work shop.store).2 })

def act (call : Call) (action : Action) (shop : Shop) : Result Reply :=
  match action with
  | .operate operation => shop.perform call operation
  | .addProduct p => shop.change (Store.addProduct p)
  | .addSlot slot => shop.change (Store.addSlot slot)
  | .setActive id isActive => shop.change (Store.setActive id isActive call.now)
  | .attend change => (.ok (.flag true), { shop with feed := change shop.feed })

/-- What an action has done to the store by the time of its answer. -/
inductive Effect (settings : Settings) (call : Call) (s : Store) : Action → Answer → Store → Prop where
  /-- At most marks of hand-overs are new. -/
  | aside {action : Action} {answer : Answer} (marks : List HandOver)
      (hplaced : answer.placed? = none) (hpaid : answer.paid? = none)
      (hentered : action.entered settings call answer = []) :
      Effect settings call s action answer { s with handOvers := s.handOvers ++ marks }
  | catalogued {action : Action} {products : List Product} {slots : List SlotRow}
      {options : List SlotOption}
      (hentered : action.entered settings call (.ok (.flag true)) = [])
      (hprices : ∀ p ∈ products, (∃ q ∈ s.products, p.price = q.price) ∨ action = .addProduct p) :
      Effect settings call s action (.ok (.flag true)) { s with products, slots, options }
  | placed {r : OrderRequest} {d : Draft} {t : Store}
      (hsound : Draft.Sound (s.catalogOf r.productIds) call.pricedAt call.ids r d)
      (hplaced : Placed settings call d s t) :
      Effect settings call s (.operate (.place r)) (.ok (.placed ⟨d.receipt, false⟩)) t
  | paid {orderId : String} {tenders : List Tender} {key : Option String}
      {receipt : PaymentReceipt} {t : Store}
      (hchecked : checkTenders tenders = .ok () ∧ checkKey key = .ok ())
      (hpaid : Paid settings call orderId tenders key receipt s t) :
      Effect settings call s (.operate (.pay orderId tenders key))
        ((report ⟨receipt, false⟩).map .paid) t
  | cancelled {orderId : String} {o : Order} {t : Store}
      (hreversed : Reversed settings call orderId .cancelled .correction s t) :
      Effect settings call s (.operate (.cancel orderId)) (.ok (.order o)) t
  | refunded {orderId : String} {o : Order} {t : Store}
      (hreversed : Reversed settings call orderId .refunded .refund s t) :
      Effect settings call s (.operate (.refund orderId)) (.ok (.order o)) t
  | discarded {orderId : String} {es : List StockEntry} {t : Store}
      (hdiscarded : Discarded settings call.now call.ids orderId s t es) :
      Effect settings call s (.operate (.discard orderId)) (.ok (.flag true)) t
  | reaped {attemptId keptId : String} {orderIds : List String} {count : Nat}
      {es : List StockEntry} {t : Store}
      (hdiscarded : DiscardedEach settings call.now call.ids orderIds s t count es) :
      Effect settings call s (.operate (.reap attemptId keptId)) (.ok (.count count)) t
  | entered {action : Action} {reply : Reply} (hplaced : Answer.placed? (.ok reply) = none)
      (hpaid : Answer.paid? (.ok reply) = none) :
      Effect settings call s action (.ok reply)
        { s with entries := s.entries ++ action.entered settings call (.ok reply) }
  | purged {count : Nat} :
      Effect settings call s (.operate .purge) (.ok (.count count))
        { s with remembered := s.remembered.filter fun r => r.isLive call.now }

variable {call : Call} {shop after : Shop}

theorem Effect.failed (settings : Settings) (call : Call) (s : Store) (action : Action)
    (fault : Fault ShopError) : Effect settings call s action (.error fault) s := by
  have hentered := action.entered_error settings call fault
  have haside := Effect.aside (s := s) [] rfl rfl hentered
  rwa [List.append_nil] at haside

/-- An answer that tells of no new order and no new payment, and enters nothing, may come
with marks only. -/
private theorem effect_marks {action : Action} {answer : Answer} {s t : Store}
    (h : ∃ marks, t = { s with handOvers := s.handOvers ++ marks })
    (hplaced : answer.placed? = none) (hpaid : answer.paid? = none)
    (hentered : action.entered shop.settings call answer = []) :
    Effect shop.settings call s action answer t := by
  obtain ⟨marks, rfl⟩ := h
  exact .aside marks hplaced hpaid hentered

private theorem unmarked (s : Store) : ∃ marks, s = { s with handOvers := s.handOvers ++ marks } :=
  ⟨[], by rw [List.append_nil]⟩

/-- A committed transaction has the effect that it has wherever it answers. -/
private theorem commit_effect {α : Type} {work : Work ShopError (Closing (α × List StockEvent))}
    {action : Action} {f : α → Reply} {answer : Except (Fault ShopError) α}
    (h : shop.commit work = (answer, after))
    (hok : ∀ a events t, transact work shop.store = (.ok (a, events), t) →
      Effect shop.settings call shop.store action (.ok (f a)) t) :
    after.settings = shop.settings ∧
      Effect shop.settings call shop.store action (answer.map f) after.store := by
  cases answer with
  | error fault =>
      rw [commit_eq_error h]
      exact ⟨rfl, .failed ..⟩
  | ok a =>
      obtain ⟨events, t, htransact, rfl⟩ := commit_eq_ok.mp h
      exact ⟨rfl, hok a events t htransact⟩

theorem place_effect {r : OrderRequest} {answer : Except (Fault ShopError) (Outcome OrderReceipt)}
    (h : shop.place call r = (answer, after)) :
    after.settings = shop.settings ∧ Effect shop.settings call shop.store (.operate (.place r))
      (answer.map .placed) after.store := by
  unfold place at h
  split at h
  · cases h
    exact ⟨rfl, .failed ..⟩
  · next o hearlier =>
      cases h
      obtain ⟨_, -, hlost⟩ := bind_eq_ok.mp hearlier
      have hreplayed := (earlier?_eq_some hlost).replayed
      exact ⟨rfl, effect_marks (unmarked _) (Answer.placed?_replayed hreplayed) rfl rfl⟩
  · split at h
    · cases h
      exact ⟨rfl, .failed ..⟩
    · next d hprice =>
        apply commit_effect h
        intro o events t htransact
        rcases transact_placeWork htransact with ⟨rfl, hplaced, -⟩ | ⟨hlost, -, rfl⟩
        · exact .placed (Draft.build_eq_ok (mapError_eq_ok.mp hprice)) hplaced
        · have hreplayed := hlost.replayed
          exact effect_marks (unmarked _) (Answer.placed?_replayed hreplayed) rfl rfl

theorem pay_effect {orderId : String} {tenders : List Tender} {key : Option String}
    {answer : Except (Fault ShopError) (Outcome PaymentReceipt)}
    (h : shop.pay call orderId tenders key = (answer, after)) :
    after.settings = shop.settings ∧
      Effect shop.settings call shop.store (.operate (.pay orderId tenders key))
        (answer.map .paid) after.store := by
  unfold pay at h
  split at h
  · cases h
    exact ⟨rfl, .failed ..⟩
  · next o hearlier =>
      cases h
      simp only [earlierPaying, bind_eq_ok] at hearlier
      obtain ⟨_, -, _, -, hlost⟩ := hearlier
      have hreplayed := (earlier?_eq_some hlost).replayed
      exact ⟨rfl, effect_marks (unmarked _) rfl (Answer.paid?_replayed hreplayed) rfl⟩
  · next hearlier =>
      simp only [earlierPaying, bind_eq_ok] at hearlier
      obtain ⟨_, htenders, _, hkey, -⟩ := hearlier
      split at h
      · next o paid hcommit =>
          obtain ⟨events, t, htransact, rfl⟩ := commit_eq_ok.mp hcommit
          cases h
          refine ⟨rfl, ?_⟩
          rcases transact_payWork htransact with ⟨-, ⟨hfresh, hpaid⟩ | ⟨hlost, rfl⟩⟩
          · obtain ⟨receipt, replayed⟩ := o
            cases hfresh
            exact .paid ⟨htenders, hkey⟩ hpaid
          · have hreplayed := hlost.replayed
            have hreport : report o = .ok o := by
              rw [report, hreplayed]
              rfl
            rw [hreport]
            exact effect_marks (unmarked _) rfl (Answer.paid?_replayed hreplayed) rfl
      · next fault paid hcommit =>
          rw [commit_eq_error hcommit] at h
          cases h
          exact ⟨rfl, .failed ..⟩

theorem append_effect {entries : List StockEntry}
    {answer : Except (Fault ShopError) (List StockEvent)}
    (h : shop.append call entries = (answer, after)) :
    after.settings = shop.settings ∧
      Effect shop.settings call shop.store (.operate (.append entries)) (answer.map .events)
        after.store := by
  cases answer with
  | error fault =>
      rw [append_eq_error h]
      exact ⟨rfl, .failed ..⟩
  | ok events =>
      obtain ⟨rfl, -⟩ := append_eq_ok h
      exact ⟨rfl, .entered rfl rfl⟩

theorem enter_effect {productId actor : String} {delta : Int} {reason : Reason}
    {answer : Except (Fault ShopError) StockEvent}
    (h : shop.enter call productId delta reason actor = (answer, after)) :
    after.settings = shop.settings ∧
      Effect shop.settings call shop.store (.operate (.enter productId delta reason actor))
        (answer.map .event) after.store := by
  cases answer with
  | error fault =>
      rw [enter_eq_error h]
      exact ⟨rfl, .failed ..⟩
  | ok event =>
      obtain ⟨rfl, -⟩ := enter_eq_ok h
      exact ⟨rfl, .entered rfl rfl⟩

theorem perform_effect (call : Call) (operation : Operation) (shop : Shop) :
    (shop.perform call operation).2.settings = shop.settings ∧
      Effect shop.settings call shop.store (.operate operation) (shop.perform call operation).1
        (shop.perform call operation).2.store := by
  cases operation with
  | place r => exact place_effect rfl
  | pay orderId tenders key => exact pay_effect rfl
  | cancel orderId =>
      apply commit_effect rfl
      intro o events t h
      exact .cancelled (transact_reverseWork h).1
  | refund orderId =>
      apply commit_effect rfl
      intro o events t h
      exact .refunded (transact_reverseWork h).1
  | discard orderId =>
      apply commit_effect rfl
      intro deleted events t h
      rcases transact_discardWork h with ⟨rfl, es, hdiscarded, -⟩ | ⟨rfl, -, -, rfl⟩
      · exact .discarded hdiscarded
      · exact effect_marks (unmarked _) rfl rfl rfl
  | reap attemptId keptId =>
      apply commit_effect rfl
      intro count events t h
      rcases transact_reapWork h with ⟨-, es, hdiscarded, -⟩ | ⟨rfl, -, rfl⟩
      · exact .reaped hdiscarded
      · exact effect_marks (unmarked _) rfl rfl rfl
  | handOverLines lineIds =>
      apply commit_effect rfl
      intro count events t h
      exact effect_marks (transact_handOver h) rfl rfl rfl
  | handOverOrder orderId =>
      apply commit_effect rfl
      intro count events t h
      exact effect_marks (transact_handOverOrderWork h) rfl rfl rfl
  | append entries => exact append_effect rfl
  | enter productId delta reason actor => exact enter_effect rfl
  | purge => exact ⟨rfl, .purged⟩

/-- A change of the store is an effect when it is one wherever it succeeds. -/
private theorem change_effect {action : Action}
    {work : Store → Except (Fault StorageError) Unit × Store}
    (hok : ∀ t, work shop.store = (.ok (), t) →
      Effect shop.settings call shop.store action (.ok (.flag true)) t)
    (herror : ∀ f t, work shop.store = (.error f, t) → t = shop.store) :
    (shop.change work).2.settings = shop.settings ∧
      Effect shop.settings call shop.store action (shop.change work).1
        (shop.change work).2.store := by
  unfold change
  rcases hwork : work shop.store with ⟨answer, t⟩
  cases answer with
  | error f =>
      rw [herror f t hwork]
      exact ⟨rfl, .failed ..⟩
  | ok u => exact ⟨rfl, hok t hwork⟩

/-- Whatever happens to a shop leaves its settings, and has one of the effects on its
store. -/
theorem act_effect (call : Call) (action : Action) (shop : Shop) :
    (shop.act call action).2.settings = shop.settings ∧
      Effect shop.settings call shop.store action (shop.act call action).1
        (shop.act call action).2.store := by
  cases action with
  | operate operation => exact perform_effect call operation shop
  | addProduct p =>
      refine change_effect ?_ fun f t h => transact_eq_error h
      intro t h
      rw [(Store.insertProduct_eq_ok.mp (yields_execute.mp (transactAll_eq_ok.mp h))).2.2]
      apply Effect.catalogued rfl
      intro q hq
      rcases List.mem_append.mp hq with hq | hq
      · exact Or.inl ⟨q, hq, rfl⟩
      · exact Or.inr (by rw [List.mem_singleton.mp hq])
  | addSlot slot =>
      refine change_effect ?_ fun f t h => transact_eq_error h
      intro t h
      obtain ⟨-, rfl⟩ := Store.yields_insertSlotWork.mp (transactAll_eq_ok.mp h)
      exact .catalogued rfl fun q hq => Or.inl ⟨q, hq, rfl⟩
  | setActive id isActive =>
      refine change_effect ?_ fun f t h => transact_eq_error h
      intro t h
      rw [Store.updateActive_eq_ok (yields_execute.mp (transactAll_eq_ok.mp h))]
      apply Effect.catalogued rfl
      intro p hp
      obtain ⟨q, hq, rfl⟩ := List.mem_map.mp hp
      refine Or.inl ⟨q, hq, ?_⟩
      split <;> rfl
  | attend change => exact ⟨rfl, effect_marks (unmarked _) rfl rfl rfl⟩

end Shop

end OrderLedger
