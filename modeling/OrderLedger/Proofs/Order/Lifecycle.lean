import Mathlib.Data.List.Chain
import OrderLedger.Proofs.Run.Values
import OrderLedger.Proofs.Shop.Answers
import OrderLedger.Proofs.Stock.Balance

/-!
The life of an order over whole runs. An order is placed once and pending then; it is paid,
cancelled or deleted, and a paid order may be refunded. There is no other step, and an order
that was deleted does not come back. Calls that would move an order succeed exactly in the
status from which the move may be made, and tell the status of the order where they fail.
-/

namespace OrderLedger

/-- Where an order stands. A deleted order and one that was never placed are both not
stored. -/
inductive Phase where
  | unplaced
  | stored (status : Status)
  | deleted
  deriving DecidableEq, Repr

namespace Phase

def status? : Phase → Option Status
  | .stored status => some status
  | .unplaced | .deleted => none

/-- The five steps of an order. -/
def leadsTo : Phase → Phase → Bool
  | .unplaced, .stored .pending => true
  | .stored .pending, .stored .paid => true
  | .stored .pending, .stored .cancelled => true
  | .stored .pending, .deleted => true
  | .stored .paid, .stored .refunded => true
  | _, _ => false

/-- In one turn an order takes one step at most. -/
def IsPath (phases : List Phase) : Prop :=
  phases.head? = some .unplaced ∧ phases.IsChain fun a b => a = b ∨ a.leadsTo b = true

theorem leadsTo_stored (a b : Status) : leadsTo (.stored a) (.stored b) = a.canMoveTo b := by
  cases a <;> cases b <;> rfl

theorem IsPath.concat {phases : List Phase} {last next : Phase} (h : IsPath (phases ++ [last]))
    (hstep : last = next ∨ last.leadsTo next = true) : IsPath ((phases ++ [last]) ++ [next]) := by
  obtain ⟨hhead, hchain⟩ := h
  refine ⟨?_, hchain.append (List.isChain_singleton _) ?_⟩
  · rw [List.head?_append, hhead]
    rfl
  · intro a ha b hb
    rw [List.getLast?_concat, Option.mem_def, Option.some.injEq] at ha
    rw [List.head?_cons, Option.mem_def, Option.some.injEq] at hb
    rwa [← ha, ← hb]

end Phase

/-- One step of an order by the call with the given first id, seen in its status before and
after. -/
inductive StatusStep (id newId : String) : Option Status → Option Status → Prop where
  | stay (status : Option Status) : StatusStep id newId status status
  | place (hid : id = newId) : StatusStep id newId none (some .pending)
  | move {source target : Status} (hmove : source.canMoveTo target = true) :
      StatusStep id newId (some source) (some target)
  | delete : StatusStep id newId (some .pending) none

/-- A step of the status is a step of the phase, unless it would bring a deleted order
back. -/
theorem StatusStep.exists_next {id newId : String} {before after : Option Status} {last : Phase}
    (h : StatusStep id newId before after) (hlast : last.status? = before)
    (hdeleted : last = .deleted → id ≠ newId) :
    ∃ next : Phase, next.status? = after ∧ (last = next ∨ last.leadsTo next = true) ∧
      (next = .unplaced ∨ last ≠ .unplaced ∨ id = newId) := by
  cases h with
  | stay =>
      refine ⟨last, hlast, Or.inl rfl, ?_⟩
      by_cases hnew : last = .unplaced
      · exact Or.inl hnew
      · exact Or.inr (Or.inl hnew)
  | place hid =>
      cases last with
      | unplaced => exact ⟨.stored .pending, rfl, Or.inr rfl, Or.inr (Or.inr hid)⟩
      | stored status => cases hlast
      | deleted => exact absurd hid (hdeleted rfl)
  | @move source target hmove =>
      cases last with
      | unplaced => cases hlast
      | stored status =>
          cases hlast
          refine ⟨.stored target, rfl, Or.inr ?_, Or.inr (Or.inl nofun)⟩
          rwa [Phase.leadsTo_stored]
      | deleted => cases hlast
  | delete =>
      cases last with
      | unplaced => cases hlast
      | stored status =>
          cases hlast
          exact ⟨.deleted, rfl, Or.inr rfl, Or.inr (Or.inl nofun)⟩
      | deleted => cases hlast

namespace Shop

variable {settings : Settings} {call : Call} {s t : Store}

theorem Reversed.statusOf_eq {orderId : String} {target : Status} {reason : Reason}
    (hreversed : Reversed settings call orderId target reason s t) (id : String) :
    (id = orderId ∧ ∃ source, s.statusOf id = some source ∧ source.canMoveTo target = true ∧
      t.statusOf id = some target) ∨ t.statusOf id = s.statusOf id := by
  obtain ⟨o, hfound, hmove, rfl⟩ := hreversed
  by_cases hid : id = orderId
  · subst hid
    have hafter := order?_withStatus target call.now hfound rfl
    exact Or.inl ⟨rfl, o.status, Store.statusOf_of_order? hfound, hmove,
      Store.statusOf_of_order? hafter⟩
  · exact Or.inr (Store.statusOf_withStatus_ne o.status target call.now hid)

theorem Discarded.statusOf_eq {now : Time.Instant} {ids : Nat → String} {orderId : String}
    {es : List StockEntry} (hdiscarded : Discarded settings now ids orderId s t es)
    (hs : s.Intact) (id : String) :
    t.statusOf id = s.statusOf id ∨ s.statusOf id = some .pending ∧ t.statusOf id = none := by
  have hdeletable := hdiscarded.deletable
  rw [Store.isDeletable, Bool.and_eq_true] at hdeletable
  have hgone := Store.statusOf_withoutOrder s orderId id
  rw [hdiscarded.after]
  by_cases hid : id = orderId
  · rw [if_pos hid] at hgone
    subst hid
    exact Or.inr ⟨Store.statusOf_of_isIn hs.orderIds hdeletable.1, hgone⟩
  · rw [if_neg hid] at hgone
    exact Or.inl hgone

theorem DiscardedEach.statusOf_eq {now : Time.Instant} {ids : Nat → String}
    {orderIds : List String} {count : Nat} {es : List StockEntry}
    (hdiscarded : DiscardedEach settings now ids orderIds s t count es) (hs : s.Intact)
    (id : String) :
    t.statusOf id = s.statusOf id ∨ s.statusOf id = some .pending ∧ t.statusOf id = none := by
  refine (hdiscarded.lift (R := fun s t => s.Intact → t.Intact ∧
    (t.statusOf id = s.statusOf id ∨ s.statusOf id = some .pending ∧ t.statusOf id = none))
    ?_ ?_ ?_ hs).2
  · intro s hs
    exact ⟨hs, Or.inl rfl⟩
  · intro s t u hfirst hrest hs
    obtain ⟨ht, hst⟩ := hfirst hs
    obtain ⟨hu, htu⟩ := hrest ht
    refine ⟨hu, ?_⟩
    rcases hst with hst | ⟨hpending, hgone⟩
    · rwa [hst] at htu
    · rcases htu with htu | ⟨hback, -⟩
      · exact Or.inr ⟨hpending, htu.trans hgone⟩
      · rw [hgone] at hback
        cases hback
  · intro ids orderId s t es hdeleted hs
    exact ⟨hdeleted.intact hs, hdeleted.statusOf_eq hs id⟩

/-- Every action takes an order one step or leaves it where it is. -/
theorem Effect.statusStep {action : Action} {answer : Answer}
    (heffect : Effect settings call s action answer t) (hs : s.Intact) (id : String) :
    StatusStep id (call.ids 0) (s.statusOf id) (t.statusOf id) := by
  have hdeleted (h : t.statusOf id = s.statusOf id ∨
      s.statusOf id = some .pending ∧ t.statusOf id = none) :
      StatusStep id (call.ids 0) (s.statusOf id) (t.statusOf id) := by
    rcases h with hsame | ⟨hpending, hgone⟩
    · rw [hsame]
      exact .stay _
    · rw [hpending, hgone]
      exact .delete
  cases heffect with
  | aside | catalogued | entered | purged => exact .stay _
  | placed hsound hplaced =>
      rw [hplaced.statusOf_eq id]
      split
      · next hid =>
          have hnone := Store.statusOf_eq_none.mpr hplaced.newOrder
          rw [hid, hnone, hsound.status]
          exact .place hsound.id
      · exact .stay _
  | paid _ hpaid =>
      rw [hpaid.statusOf_eq id]
      split
      · next hid =>
          rw [hid, hpaid.statusOf_before]
          exact .move rfl
      · exact .stay _
  | cancelled hreversed | refunded hreversed =>
      rcases hreversed.statusOf_eq id with ⟨-, source, hbefore, hmove, hafter⟩ | hsame
      · rw [hbefore, hafter]
        exact .move hmove
      · rw [hsame]
        exact .stay _
  | discarded hdiscarded => exact hdeleted (hdiscarded.statusOf_eq hs id)
  | reaped hdiscarded => exact hdeleted (hdiscarded.statusOf_eq hs id)

end Shop

namespace Run

variable {settings : Settings} {turns : List Turn} {shop : Shop}

/-- The statuses of an order before every turn of a run and after the last one. -/
def statuses (turns : List Turn) (shop : Shop) (id : String) : List (Option Status) :=
  turns.map (fun turn => turn.before.store.statusOf id) ++ [shop.store.statusOf id]

/-- The history of an order, with the phase that it is in now. It has left its first phase
only if its id is the first id of an earlier call. -/
theorem exists_phases (hrun : Run settings turns shop) (hids : FreshIds turns) (id : String) :
    ∃ phases last, (phases ++ [last]).map Phase.status? = statuses turns shop id ∧
      Phase.IsPath (phases ++ [last]) ∧
      (last = .unplaced ∨ ∃ turn ∈ turns, turn.call.ids 0 = id) := by
  induction hrun with
  | opened => exact ⟨[], .unplaced, rfl, ⟨rfl, List.isChain_singleton _⟩, Or.inl rfl⟩
  | @act turns shop call action hrun ih =>
      rw [FreshIds, List.pairwise_append] at hids
      obtain ⟨hearlier, -, hlast⟩ := hids
      obtain ⟨phases, last, hphases, hpath, hseen⟩ := ih hearlier
      have hstatus : last.status? = shop.store.statusOf id := by
        rw [statuses, List.map_append, List.map_singleton] at hphases
        exact List.singleton_inj.mp (List.append_inj' hphases rfl).2
      -- A call cannot place the order again, for its ids are not those of an earlier call.
      have hnot : last = .deleted → id ≠ call.ids 0 := by
        rintro rfl rfl
        rcases hseen with hnew | ⟨turn, hturn, heq⟩
        · cases hnew
        · exact hlast turn hturn _ (List.mem_singleton.mpr rfl) 0 0 heq
      obtain ⟨next, hafter, hstep, hused⟩ :=
        ((hrun.effect call action).statusStep hrun.intact id).exists_next hstatus hnot
      refine ⟨phases ++ [last], next, ?_, hpath.concat hstep, ?_⟩
      · rw [List.map_append, hphases, List.map_singleton, hafter]
        simp [statuses]
      · rcases hused with hnew | hold | hid
        · exact Or.inl hnew
        · obtain ⟨turn, hturn, heq⟩ := hseen.resolve_left hold
          exact Or.inr ⟨turn, List.mem_append_left _ hturn, heq⟩
        · exact Or.inr ⟨_, List.mem_append_right _ List.mem_cons_self, hid.symm⟩

end Run

/-- The answer of a call that would move an order from one status to another. If there is room
for what the call adds up, it succeeds exactly in the first status; an order that is not stored
is not found, and in every other status the answer tells the status and the move. -/
structure TellsMove {α : Type} (answer : Except (Fault ShopError) α) (s : Store) (id : String)
    (source target : Status) (room : Prop) : Prop where
  succeeds : room → ((∃ a, answer = .ok a) ↔ s.statusOf id = some source)
  absent : s.statusOf id = none → answer = .error (.error (.notFound "Order" id))
  refused : ∀ status, s.statusOf id = some status → status ≠ source →
    answer = .error (.error (.badMove status target))

/-- A status that an order may move to may be reached from one status only. -/
theorem Status.canMoveTo_iff {source target : Status} (h : source.canMoveTo target = true)
    (status : Status) : status.canMoveTo target = true ↔ status = source := by
  cases source <;> cases target <;> cases h <;> cases status <;> decide

/-- Of the order there are three cases: it may be moved, it is not stored, or it may not be
moved. -/
theorem TellsMove.of_order {α : Type} {answer : Except (Fault ShopError) α} {s : Store}
    {id : String} {source target : Status} {room : Prop}
    (hsource : ∀ status : Status, status.canMoveTo target = true ↔ status = source)
    (hmoved : ∀ o, s.order? id = some o → o.status = source → room → ∃ a, answer = .ok a)
    (habsent : s.order? id = none → answer = .error (.error (.notFound "Order" id)))
    (hrefused : ∀ o, s.order? id = some o → o.status.canMoveTo target = false →
      answer = .error (.error (.badMove o.status target))) :
    TellsMove answer s id source target room := by
  have hnone (h : s.statusOf id = none) : answer = .error (.error (.notFound "Order" id)) := by
    rw [Store.statusOf, Option.map_eq_none_iff] at h
    exact habsent h
  have hother (status : Status) (h : s.statusOf id = some status) (hne : status ≠ source) :
      answer = .error (.error (.badMove status target)) := by
    obtain ⟨o, hfound, rfl⟩ := Option.map_eq_some_iff.mp h
    refine hrefused o hfound ?_
    rw [← Bool.not_eq_true, hsource]
    exact hne
  refine ⟨fun hroom => ⟨?_, ?_⟩, hnone, hother⟩
  · rintro ⟨a, hok⟩
    cases hstatus : s.statusOf id with
    | none =>
        rw [hnone hstatus] at hok
        cases hok
    | some status =>
        by_cases hsame : status = source
        · rw [hsame]
        · rw [hother status hstatus hsame] at hok
          cases hok
  · intro h
    obtain ⟨o, hfound, hstatus⟩ := Option.map_eq_some_iff.mp h
    exact hmoved o hfound hstatus hroom

namespace Shop

variable {call : Call} {shop : Shop} {orderId : String}

theorem tellsMove_reverse {source target : Status} {reason : Reason}
    (hsource : ∀ status : Status, status.canMoveTo target = true ↔ status = source)
    (hlines : ∀ l ∈ shop.store.linesOf orderId, 0 < l.quantity ∧ l.quantity ≤ 999)
    (hfresh : call.IsFresh shop.store) :
    TellsMove (shop.commit (reverseWork shop.settings call orderId target reason)).1 shop.store
      orderId source target (shop.store.SumsFit 1 (shop.store.linesOf orderId)) := by
  apply TellsMove.of_order hsource
  · intro o hfound hstatus hsums
    have hmove := (hsource o.status).mpr hstatus
    obtain ⟨o', events, t, htransact⟩ := exists_reverse hfound hmove hlines hfresh hsums
    exact ⟨o', congrArg Prod.fst (commit_eq_ok.mpr ⟨events, t, htransact, rfl⟩)⟩
  · intro hnone
    exact congrArg Prod.fst (commit_of_fails (fails_reverse_absent hnone))
  · intro o hfound hmove
    exact congrArg Prod.fst (commit_of_fails (fails_reverse_refused hfound hmove))

theorem tellsMove_pay {tenders : List Tender} (htenders : checkTenders tenders = .ok ())
    (hfresh : call.IsFresh shop.store) :
    TellsMove (shop.pay call orderId tenders none).1 shop.store orderId .pending .paid
      ((tenders.map (·.amount.cents)).sum ≤ Word.greatest) := by
  apply TellsMove.of_order (Status.canMoveTo_iff rfl)
  · intro o hfound hstatus hsum
    exact exists_pay hfound hstatus htenders hsum hfresh
  · intro hnone
    rw [pay_of_fails htenders (fails_settle_absent hnone)]
  · intro o hfound hmove
    rw [pay_of_fails htenders (fails_settle_refused hfound hmove)]

/-- An order is deleted exactly if it is pending and none of its lines was handed over. -/
theorem discard_iff (hs : shop.store.Intact)
    (hlines : ∀ l ∈ shop.store.linesOf orderId, 0 < l.quantity ∧ l.quantity ≤ 999)
    (hfresh : call.IsFresh shop.store)
    (hsums : shop.store.SumsFit 1 (shop.store.linesOf orderId)) :
    (shop.discard call orderId).1 = .ok true ↔
      shop.store.statusOf orderId = some .pending ∧
        ∀ l ∈ shop.store.linesOf orderId, shop.store.isHandedOver l.id = false := by
  have hdeletable : shop.store.isDeletable orderId = true ↔
      shop.store.statusOf orderId = some .pending ∧
        ∀ l ∈ shop.store.linesOf orderId, shop.store.isHandedOver l.id = false := by
    rw [Store.isDeletable, Bool.and_eq_true, Store.isIn_iff_statusOf hs.orderIds]
    simp
  rw [← hdeletable]
  constructor
  · intro hdeleted
    rw [← Bool.not_eq_false]
    intro hkept
    have htransact : transact (discardWork shop.settings call orderId) shop.store =
        (.ok (false, []), shop.store) := discard_kept hkept
    rw [discard, commit_eq_ok.mpr ⟨[], shop.store, htransact, rfl⟩] at hdeleted
    cases hdeleted
  · intro hdeletable
    obtain ⟨events, t, htransact⟩ := exists_discard hdeletable hlines hfresh hsums
    exact congrArg Prod.fst (commit_eq_ok.mpr ⟨events, t, htransact, rfl⟩)

end Shop

namespace Run

variable {settings : Settings} {turns : List Turn} {shop : Shop}

/-- Over a run an order goes from not being placed along the five steps, and the calls that
move it succeed exactly where the step may be taken. -/
theorem orders_keep_their_course (hrun : Run settings turns shop) (hids : FreshIds turns)
    (id : String) :
    (∃ phases, phases.map Phase.status? = statuses turns shop id ∧ Phase.IsPath phases) ∧
    ∀ call : Call, call.IsFresh shop.store →
      TellsMove (shop.cancel call id).1 shop.store id .pending .cancelled
        (shop.store.SumsFit 1 (shop.store.linesOf id)) ∧
      TellsMove (shop.refund call id).1 shop.store id .paid .refunded
        (shop.store.SumsFit 1 (shop.store.linesOf id)) ∧
      (∀ tenders, Shop.checkTenders tenders = .ok () →
        TellsMove (shop.pay call id tenders none).1 shop.store id .pending .paid
          ((tenders.map (·.amount.cents)).sum ≤ Word.greatest)) ∧
      (shop.store.SumsFit 1 (shop.store.linesOf id) →
        ((shop.discard call id).1 = .ok true ↔
          shop.store.statusOf id = some .pending ∧
            ∀ l ∈ shop.store.linesOf id, shop.store.isHandedOver l.id = false)) := by
  have hlines : ∀ l ∈ shop.store.linesOf id, 0 < l.quantity ∧ l.quantity ≤ 999 :=
    fun l hl => hrun.quantities l (List.mem_of_mem_filter hl)
  refine ⟨?_, fun call hfresh => ⟨?_, ?_, ?_, ?_⟩⟩
  · obtain ⟨phases, last, hphases, hpath, -⟩ := hrun.exists_phases hids id
    exact ⟨phases ++ [last], hphases, hpath⟩
  · exact Shop.tellsMove_reverse (Status.canMoveTo_iff rfl) hlines hfresh
  · exact Shop.tellsMove_reverse (Status.canMoveTo_iff rfl) hlines hfresh
  · exact fun tenders htenders => Shop.tellsMove_pay htenders hfresh
  · exact Shop.discard_iff hrun.intact hlines hfresh

/-- Soup is ordered, and the order is still open. -/
def openOrder : List (Call × Action) :=
  [(Call.on 20000 'a',
      .addProduct ⟨"soup", "Soup", .simple, ⟨850⟩, true, ⟨20000, 0, 0⟩, ⟨20000, 0, 0⟩⟩),
   (Call.on 20000 'b',
      .operate (.place ⟨some "c-7", none, .pos, some "till-1", [⟨"soup", 2, []⟩]⟩))]

theorem course_of_openOrder :
    let played := play Settings.standard openOrder
    let call := Call.on 20000 'c'
    FreshIds played.1 ∧ call.IsFresh played.2.store ∧
    played.2.store.SumsFit 1 (played.2.store.linesOf "b") ∧
    played.2.store.statusOf "b" = some .pending ∧
    (∃ o, (played.2.cancel call "b").1 = .ok o) ∧
    (played.2.refund call "b").1 = .error (.error (.badMove .pending .refunded)) ∧
    (∃ o, (played.2.pay call "b" [⟨.cash, ⟨1700⟩⟩] none).1 = .ok o) ∧
    (played.2.discard call "b").1 = .ok true := by
  intro played call
  have hids : FreshIds played.1 := by
    apply freshIds_play
    simp only [openOrder, List.pairwise_cons, List.mem_singleton, forall_eq, List.not_mem_nil,
      false_implies, implies_true, List.Pairwise.nil, and_true]
    exact Call.ids_on_ne (by decide) _ _
  have hfresh : call.IsFresh played.2.store := by
    apply Call.isFresh_on <;> decide +kernel
  have hmoved : Line.moved (played.2.store.linesOf "b") = ["soup"] := by decide +kernel
  have htaken : Line.taken (played.2.store.linesOf "b") "soup" = 2 := by decide +kernel
  have hsums : played.2.store.SumsFit 1 (played.2.store.linesOf "b") := by
    rw [Store.SumsFit, hmoved]
    intro productId hproduct
    rw [List.mem_singleton.mp hproduct, htaken]
    exact ⟨by decide, -2, by decide +kernel, by decide⟩
  have hpending : played.2.store.statusOf "b" = some .pending := by decide +kernel
  have hkept : ∀ l ∈ played.2.store.linesOf "b", played.2.store.isHandedOver l.id = false := by
    decide +kernel
  obtain ⟨hcancel, hrefund, hpay, hdiscard⟩ :=
    (orders_keep_their_course (run_play _ _) hids "b").2 call hfresh
  exact ⟨hids, hfresh, hsums, hpending, (hcancel.succeeds hsums).mpr hpending,
    hrefund.refused .pending hpending (by decide),
    ((hpay [⟨.cash, ⟨1700⟩⟩] rfl).succeeds (by decide)).mpr hpending,
    (hdiscard hsums).mpr ⟨hpending, hkept⟩⟩

end Run

end OrderLedger
