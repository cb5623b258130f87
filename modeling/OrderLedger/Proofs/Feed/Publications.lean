import OrderLedger.Proofs.Feed.Registry

/-!
Publications, told by the queues of the subscriptions. An event reaches every subscription that
is open, and a publisher removes the ones that it found closed if they still are.
-/

namespace OrderLedger.Feed

open Subscription

variable {capacity place : Nat} {subs : List Subscription} {s : Subscription} {r : Subscriber}
  {name : String} {names : List String} {e : StockEvent}

/-! ## Offers -/

/-- The subscription of a registry's entry is open. -/
def Listens (subs : List Subscription) (r : Subscriber) : Prop :=
  ∃ s, subs[r.stream]? = some s ∧ s.name = r.name ∧ s.queue.isOpen = true

theorem isListening_iff (hs : subs[r.stream]? = some s) :
    (ofSubscriptions capacity subs).isListening r = true ↔ s.queue.receiver = .listening := by
  rw [isListening, getElem?_streams, hs]
  exact beq_iff_eq

theorem hasRoom_of (hs : subs[r.stream]? = some s) : (ofSubscriptions capacity subs).hasRoom r =
    decide (s.queue.buffered.length < capacity) := by
  rw [hasRoom, getElem?_streams, hs]
  rfl

theorem offerTo_of_room (hs : subs[r.stream]? = some s) (hopen : s.queue.isOpen = true)
    (hroom : s.queue.buffered.length < capacity) :
    offerTo e (ofSubscriptions capacity subs) r =
      ofSubscriptions capacity (advance capacity (reaching [r.stream] [.offer e]) subs) := by
  have hoffered : s.run capacity [.offer e] = ⟨s.name, s.queue.offer capacity e⟩ := rfl
  rw [Queue.offer_of_room hopen hroom] at hoffered
  rw [offerTo, hasRoom_of hs, decide_eq_true hroom, if_pos rfl]
  refine eq_ofSubscriptions rfl (streams_reaching _ fun t ht => ?_).symm
    (subscribers_reaching fun t ht => ?_).symm
  all_goals
    cases hs.symm.trans ht
    rw [hoffered]
    rfl

/-- The event that is missed is counted by the name, which no other entry has. -/
theorem offerTo_of_full (hdistinct : NamesDistinct subs) (hs : subs[r.stream]? = some s)
    (hname : s.name = r.name) (hopen : s.queue.isOpen = true)
    (hfull : ¬ s.queue.buffered.length < capacity) :
    offerTo e (ofSubscriptions capacity subs) r =
      ofSubscriptions capacity (advance capacity (reaching [r.stream] [.offer e]) subs) := by
  have hoffered : s.run capacity [.offer e] = ⟨s.name, s.queue.offer capacity e⟩ := rfl
  rw [Queue.offer_of_full hopen hfull] at hoffered
  rw [offerTo, hasRoom_of hs, decide_eq_false hfull, if_neg Bool.false_ne_true]
  have hregistered := (Queue.isOpen_eq_true.mp hopen).1
  refine eq_ofSubscriptions rfl ?_ ?_
  · rw [streams_reaching id fun t ht => ?_, List.modify_id]
    cases hs.symm.trans ht
    rw [hoffered]
    rfl
  · rw [subscribers_advance (some ∘ fun other =>
        if other.name == r.name then { other with dropped := other.dropped + 1 } else other)
        fun i t ht => ?_, List.filterMap_eq_map]
    by_cases hi : r.stream = i
    · subst hi
      cases hs.symm.trans ht
      rw [run_reaching_self, hoffered]
      simp [entry, hregistered, hname]
    · rw [run_reaching_other hi]
      cases hentry : t.entry i with
      | none => rfl
      | some other =>
          have hother := hdistinct.name_ne hs hregistered ht hentry hi
          rw [hname] at hother
          simp [hother]

theorem offerTo_of (hdistinct : NamesDistinct subs) (hlistens : Listens subs r) :
    offerTo e (ofSubscriptions capacity subs) r =
      ofSubscriptions capacity (advance capacity (reaching [r.stream] [.offer e]) subs) := by
  obtain ⟨s, hs, hname, hopen⟩ := hlistens
  by_cases hroom : s.queue.buffered.length < capacity
  · exact offerTo_of_room hs hopen hroom
  · exact offerTo_of_full hdistinct hs hname hopen hroom

theorem Listens.offered (h : Listens subs r) (places : List Nat) :
    Listens (advance capacity (reaching places [.offer e]) subs) r := by
  obtain ⟨s, hs, hname, hopen⟩ := h
  refine ⟨_, (getElem?_advance _).trans (congrArg _ hs), hname, ?_⟩
  simp only [reaching]
  split
  · exact (Queue.isOpen_offer e).trans hopen
  · exact hopen

theorem offer_each (hdistinct : NamesDistinct subs) {rs : List Subscriber}
    (hnodup : (rs.map (·.stream)).Nodup) (hlisten : ∀ r ∈ rs, Listens subs r) :
    rs.foldl (offerTo e) (ofSubscriptions capacity subs) = ofSubscriptions capacity
      (advance capacity (reaching (rs.map (·.stream)) [.offer e]) subs) := by
  induction rs generalizing subs with
  | nil => exact congrArg _ (advance_nil capacity subs).symm
  | cons r rest ih =>
      -- The first one is offered the event alone, and the others still listen after that.
      obtain ⟨hfirst, hrest⟩ := List.nodup_cons.mp hnodup
      rw [List.foldl_cons, offerTo_of hdistinct (hlisten r List.mem_cons_self),
        ih hdistinct.advance hrest fun other hother =>
          (hlisten other (List.mem_cons_of_mem r hother)).offered _, advance_advance]
      refine congrArg _ (advance_congr fun place s _ => congrArg (s.run capacity) ?_)
      simp only [reaching, List.map_cons, List.mem_cons]
      by_cases hplace : place = r.stream
      · subst hplace
        simp [hfirst]
      · simp [hplace]

/-- Every subscription is offered the event; the closed ones take it in as little as the ones
that left. -/
theorem offer_of (hdistinct : NamesDistinct subs) (e : StockEvent) :
    ((ofSubscriptions capacity subs).offer e).2 =
      ofSubscriptions capacity (advance capacity (fun _ _ => [.offer e]) subs) := by
  have hfold : ((ofSubscriptions capacity subs).offer e).2 =
      ((ofSubscriptions capacity subs).subscribers.filter
        (ofSubscriptions capacity subs).isListening).foldl (offerTo e)
          (ofSubscriptions capacity subs) := by
    rw [offer, List.partition_eq_filter_filter]
  rw [hfold, offer_each hdistinct]
  · refine congrArg _ (advance_congr fun place s hs => ?_)
    rw [reaching]
    split
    · rfl
    · next hsilent =>
        refine (congrArg (Subscription.mk s.name) (Queue.offer_of_shut ?_ e)).symm
        by_contra hopen
        rw [Bool.not_eq_false, Queue.isOpen_eq_true] at hopen
        exact hsilent (List.mem_map.mpr ⟨_, List.mem_filter.mpr
          ⟨listed_of capacity hs hopen.1, (isListening_iff hs).mpr hopen.2⟩, rfl⟩)
  · exact streams_nodup.sublist (List.filter_sublist.map _)
  · intro r hr
    obtain ⟨hmem, hlistening⟩ := List.mem_filter.mp hr
    obtain ⟨s, hs, hentry⟩ := mem_subscribers.mp hmem
    exact ⟨s, hs, (name_of_entry hentry).symm, Queue.isOpen_eq_true.mpr
      ⟨(entry_eq_some.mp hentry).1, (isListening_iff hs).mp hlistening⟩⟩

/-- The names that a publisher finds closed. -/
theorem mem_offer : name ∈ ((ofSubscriptions capacity subs).offer e).1 ↔
    ∃ (place : Nat) (s : Subscription), subs[place]? = some s ∧ s.queue.isRegistered = true ∧
      s.queue.receiver ≠ .listening ∧ s.name = name := by
  have hsilent : ((ofSubscriptions capacity subs).offer e).1 =
      ((ofSubscriptions capacity subs).subscribers.filter
        fun r => !(ofSubscriptions capacity subs).isListening r).map (·.name) := by
    rw [offer, List.partition_eq_filter_filter]
    rfl
  rw [hsilent, List.mem_map]
  constructor
  · rintro ⟨r, hr, rfl⟩
    obtain ⟨hmem, hlistening⟩ := List.mem_filter.mp hr
    obtain ⟨s, hs, hentry⟩ := mem_subscribers.mp hmem
    refine ⟨r.stream, s, hs, (entry_eq_some.mp hentry).1, ?_, (name_of_entry hentry).symm⟩
    rw [Bool.not_eq_true'] at hlistening
    exact fun h => Bool.false_ne_true (hlistening.symm.trans ((isListening_iff hs).mpr h))
  · rintro ⟨place, s, hs, hregistered, hreceiver, rfl⟩
    refine ⟨_, List.mem_filter.mpr ⟨listed_of capacity hs hregistered, ?_⟩, rfl⟩
    rw [Bool.not_eq_true', ← Bool.not_eq_true]
    exact mt (isListening_iff hs).mp hreceiver

/-! ## Pruning -/

/-- The subscriptions with the given names are removed if their receivers are gone. -/
def pruning (names : List String) (other : String) (_place : Nat) : List QueueStep :=
  if other ∈ names then [.prune] else []

theorem queue_pruning_of_kept {q : Queue} (capacity place : Nat)
    (h : name ∈ names → q.isRegistered = true → q.receiver = .listening) :
    q.run capacity (pruning names name place) = q := by
  rw [pruning]
  split
  · next hname => exact Queue.prune_of_listening capacity (h hname)
  · rfl

theorem run_pruning_of_kept (h : s.name ∈ names → s.queue.isRegistered = true →
      s.queue.receiver = .listening) : s.run capacity (pruning names s.name place) = s :=
  congrArg (Subscription.mk s.name) (queue_pruning_of_kept capacity place h)

theorem run_pruning_cons (name : String) (names : List String) :
    s.run capacity (pruning [name] s.name place ++ pruning names s.name place) =
      s.run capacity (pruning (name :: names) s.name place) := by
  by_cases hname : s.name = name
  · subst hname
    rw [pruning, pruning, pruning, if_pos (List.mem_singleton_self _), if_pos List.mem_cons_self]
    split
    · exact congrArg (Subscription.mk s.name) (Queue.prune_prune s.queue)
    · rfl
  · simp [pruning, hname]

theorem prune_one (hdistinct : NamesDistinct subs) (name : String) :
    (ofSubscriptions capacity subs).prune [name] =
      ofSubscriptions capacity (advance capacity (pruning [name]) subs) := by
  rw [prune, List.foldl_cons, List.foldl_nil]
  split
  · next hkept =>
      refine congrArg _ (advance_eq_self fun place s hs => ?_).symm
      refine run_pruning_of_kept fun hname hregistered => ?_
      rw [← List.mem_singleton.mp hname, subscriber?_of capacity hdistinct hs hregistered,
        Option.all_some] at hkept
      exact (isListening_iff hs).mp hkept
  · next hsilent =>
      -- What is registered under the name does not listen, and is pruned by leaving.
      rw [remove_of hdistinct]
      refine congrArg _ (advance_congr fun place s hs => ?_)
      rw [leaving, pruning]
      simp only [List.mem_singleton]
      split
      · next hname =>
          have hprune : s.queue.step capacity .prune = s.queue.leave := by
            refine Queue.prune_of_silent capacity fun hregistered => ?_
            rw [← hname, subscriber?_of capacity hdistinct hs hregistered,
              Option.all_some] at hsilent
            exact mt (isListening_iff hs).mpr hsilent
          exact congrArg (Subscription.mk s.name) hprune.symm
      · rfl

theorem prune_of (hdistinct : NamesDistinct subs) (names : List String) :
    (ofSubscriptions capacity subs).prune names =
      ofSubscriptions capacity (advance capacity (pruning names) subs) := by
  induction names generalizing subs with
  | nil => exact congrArg _ (advance_nil capacity subs).symm
  | cons name rest ih =>
      have hcons : (ofSubscriptions capacity subs).prune (name :: rest) =
          ((ofSubscriptions capacity subs).prune [name]).prune rest := rfl
      rw [hcons, prune_one hdistinct, ih hdistinct.advance, advance_advance]
      exact congrArg _ (advance_congr fun place s _ => run_pruning_cons name rest)

theorem publish_of (hdistinct : NamesDistinct subs) (e : StockEvent) :
    (ofSubscriptions capacity subs).publish e =
      ofSubscriptions capacity (advance capacity (fun _ _ => [.offer e, .prune]) subs) := by
  have hpublish : (ofSubscriptions capacity subs).publish e =
      ((ofSubscriptions capacity subs).offer e).2.prune
        ((ofSubscriptions capacity subs).offer e).1 := rfl
  rw [hpublish, offer_of hdistinct, prune_of hdistinct.advance, advance_advance]
  refine congrArg _ (advance_congr fun place s hs => ?_)
  rw [pruning]
  split
  · rfl
  · next hunnamed =>
      have hkept : (s.queue.offer capacity e).isRegistered = true →
          (s.queue.offer capacity e).receiver = .listening := by
        rw [Queue.isRegistered_offer, Queue.receiver_offer]
        intro hregistered
        by_contra hreceiver
        exact hunnamed (mem_offer.mpr ⟨place, s, hs, hregistered, hreceiver, rfl⟩)
      exact congrArg (Subscription.mk s.name) (Queue.prune_of_listening capacity hkept).symm

theorem publishAll_of (hdistinct : NamesDistinct subs) (events : List StockEvent) :
    (ofSubscriptions capacity subs).publishAll events =
      ofSubscriptions capacity
        (advance capacity (fun _ _ => events.flatMap fun e => [.offer e, .prune]) subs) := by
  induction events generalizing subs with
  | nil => exact congrArg _ (advance_nil capacity subs).symm
  | cons e rest ih =>
      rw [publishAll, List.foldl_cons, publish_of hdistinct]
      refine (ih hdistinct.advance).trans ?_
      rw [advance_advance]
      rfl

end OrderLedger.Feed
