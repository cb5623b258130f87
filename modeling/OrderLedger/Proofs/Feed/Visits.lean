import OrderLedger.Proofs.Feed.Registry

/-!
What subscribers and readers do with a feed, told by the queues of the subscriptions.
-/

namespace OrderLedger.Feed

open Subscription

/-- What subscribers and readers ask of a feed. -/
inductive Visit where
  | subscribe (name : String)
  | unsubscribe (name : String)
  | take (place : Nat)
  | drain (place : Nat)
  | close (place : Nat)
  | drop (place : Nat)
  deriving DecidableEq

def visit (f : Feed) : Visit → Feed
  | .subscribe name => (f.subscribe name).2
  | .unsubscribe name => (f.unsubscribe name).2
  | .take place => (f.take place).2
  | .drain place => (f.drain place).2
  | .close place => f.close place
  | .drop place => f.drop place

namespace Visit

/-- What a visit is for the queue of the subscription with a name and a place. -/
def view : Visit → String → Nat → List QueueStep
  | .subscribe name | .unsubscribe name => leaving name
  | .take place => reaching [place] [.take]
  | .drain place => reaching [place] [.drain]
  | .close place => reaching [place] [.close]
  | .drop place => reaching [place] [.drop]

/-- The subscription that a visit makes, if a buffer can be made for it. -/
def joining (capacity : Nat) : Visit → List Subscription
  | .subscribe name => if largestBuffer < capacity then [] else [⟨name, Queue.fresh⟩]
  | .unsubscribe _ | .take _ | .drain _ | .close _ | .drop _ => []

/-- The subscriptions after a visit. -/
def change (capacity : Nat) (v : Visit) (subs : List Subscription) : List Subscription :=
  advance capacity v.view subs ++ v.joining capacity

end Visit

/-- What the subscriptions of every feed are like. -/
structure Proper (capacity : Nat) (subs : List Subscription) : Prop where
  distinct : NamesDistinct subs
  buffers : largestBuffer < capacity → subs = []

variable {capacity place : Nat} {subs : List Subscription} {s : Subscription} {name : String}

theorem Proper.nil (capacity : Nat) : Proper capacity [] := ⟨nofun, fun _ => rfl⟩

theorem Proper.advance (h : Proper capacity subs) (view : String → Nat → List QueueStep) :
    Proper capacity (advance capacity view subs) := by
  refine ⟨h.distinct.advance, fun hlarge => ?_⟩
  rw [h.buffers hlarge]
  rfl

/-! ## Joining -/

theorem isRegistered_leaving {i : Nat} (hs : (advance capacity (leaving name) subs)[i]? = some s)
    (hname : s.name = name) : s.queue.isRegistered = false := by
  rw [getElem?_advance] at hs
  obtain ⟨before, -, rfl⟩ := Option.map_eq_some_iff.mp hs
  have hleave : leaving name before.name i = [.leave] := if_pos hname
  rw [hleave]
  rfl

/-- No name is registered twice when a subscription comes in the place of an earlier one. -/
theorem distinct_join (hdistinct : NamesDistinct subs) (name : String) :
    NamesDistinct (advance capacity (leaving name) subs ++ [⟨name, Queue.fresh⟩]) := by
  have hnew {i : Nat} {s : Subscription}
      (hs : (advance capacity (leaving name) subs ++ [⟨name, Queue.fresh⟩])[i]? = some s) :
      (advance capacity (leaving name) subs)[i]? = some s ∨
        i = subs.length ∧ s = ⟨name, Queue.fresh⟩ := by
    rw [List.getElem?_append, length_advance] at hs
    split at hs
    · exact Or.inl hs
    · next hi =>
        obtain ⟨hlast, hnew⟩ := List.getElem?_eq_some_iff.mp hs
        rw [List.length_singleton] at hlast
        exact Or.inr ⟨by omega, hnew.symm.trans (List.getElem_singleton _)⟩
  intro i j s t hs ht hsregistered htregistered hname
  rcases hnew hs with hs | ⟨rfl, rfl⟩ <;> rcases hnew ht with ht | ⟨rfl, rfl⟩
  · exact hdistinct.advance hs ht hsregistered htregistered hname
  · rw [isRegistered_leaving hs hname] at hsregistered
    cases hsregistered
  · rw [isRegistered_leaving ht hname.symm] at htregistered
    cases htregistered
  · rfl

theorem withSubscriber_of (hdistinct : NamesDistinct subs) (name : String) :
    (ofSubscriptions capacity subs).withSubscriber name =
      ofSubscriptions capacity
        (advance capacity (leaving name) subs ++ [⟨name, Queue.fresh⟩]) := by
  have hplace : (ofSubscriptions capacity subs).streams.length =
      (advance capacity (leaving name) subs).length := by
    rw [length_advance, length_streams]
  rw [withSubscriber, hplace, remove_of hdistinct]
  refine eq_ofSubscriptions rfl ?_ ?_
  · rw [ofSubscriptions, ofSubscriptions, List.map_append]
    rfl
  · simp only [ofSubscriptions, List.zipIdx_append, List.filterMap_append]
    simp [entry, Queue.fresh]

/-! ## Reading -/

theorem isOver_stream (s : Subscription) : s.stream.isOver = !s.queue.isOpen := by
  rw [EventStream.isOver, Queue.isOpen, Bool.not_and]
  rfl

theorem take_of (hs : subs[place]? = some s) :
    ((ofSubscriptions capacity subs).take place).1 = s.queue.reading := by
  have hpending : s.stream.pending = s.queue.buffered := rfl
  rw [take, getElem?_streams, hs, Queue.reading]
  cases hbuffered : s.queue.buffered with
  | nil =>
      simp only [Option.map_some, hpending, hbuffered, isOver_stream]
      cases s.queue.isOpen <;> rfl
  | cons e rest => simp only [Option.map_some, hpending, hbuffered]

theorem drain_of (hs : subs[place]? = some s) :
    ((ofSubscriptions capacity subs).drain place).1 = (s.queue.buffered, s.queue.isOpen) := by
  rw [drain, getElem?_streams, hs]
  simp only [Option.map_some, isOver_stream, Bool.not_not]
  rfl

theorem updateStream_of {steps : List QueueStep} (change : EventStream → EventStream)
    (hstream : ∀ s : Subscription, subs[place]? = some s →
      (s.run capacity steps).stream = change s.stream)
    (hentry : ∀ s : Subscription, subs[place]? = some s →
      (s.run capacity steps).entry place = s.entry place) :
    (ofSubscriptions capacity subs).updateStream place change =
      ofSubscriptions capacity (advance capacity (reaching [place] steps) subs) :=
  eq_ofSubscriptions rfl (streams_reaching change hstream).symm (subscribers_reaching hentry).symm

theorem advance_reaching_nothing {steps : List QueueStep}
    (h : ∀ s : Subscription, subs[place]? = some s → s.run capacity steps = s) :
    advance capacity (reaching [place] steps) subs = subs := by
  refine advance_eq_self fun i s hs => ?_
  by_cases hi : place = i
  · subst hi
    rw [run_reaching_self, h s hs]
  · exact run_reaching_other hi s

theorem advance_reaching_none {steps : List QueueStep} (hs : subs[place]? = none) :
    advance capacity (reaching [place] steps) subs = subs :=
  advance_reaching_nothing fun _ hs' => by cases hs.symm.trans hs'

theorem after_take (place : Nat) : ((ofSubscriptions capacity subs).take place).2 =
    ofSubscriptions capacity (advance capacity (reaching [place] [.take]) subs) := by
  rw [take, getElem?_streams]
  cases hs : subs[place]? with
  | none =>
      rw [advance_reaching_none hs]
      rfl
  | some s =>
      have hpending : s.stream.pending = s.queue.buffered := rfl
      cases hbuffered : s.queue.buffered with
      | nil =>
          have htake : s.queue.take = s.queue := by rw [Queue.take, hbuffered]
          rw [advance_reaching_nothing fun t ht => ?_]
          · simp only [Option.map_some, hpending, hbuffered]
          · cases hs.symm.trans ht
            exact congrArg (Subscription.mk s.name) htake
      | cons e rest =>
          have htake : s.queue.take =
              { s.queue with delivered := s.queue.delivered ++ [e], buffered := rest } := by
            rw [Queue.take, hbuffered]
          have hrun : s.run capacity [.take] = ⟨s.name, s.queue.take⟩ := rfl
          rw [htake] at hrun
          simp only [Option.map_some, hpending, hbuffered]
          refine updateStream_of _ (fun t ht => ?_) fun t ht => ?_
          all_goals
            cases hs.symm.trans ht
            rw [hrun]
            rfl

theorem after_drain (place : Nat) : ((ofSubscriptions capacity subs).drain place).2 =
    ofSubscriptions capacity (advance capacity (reaching [place] [.drain]) subs) := by
  rw [drain, getElem?_streams]
  cases hs : subs[place]? with
  | none =>
      rw [advance_reaching_none hs]
      rfl
  | some s => exact updateStream_of _ (fun _ _ => rfl) (fun _ _ => rfl)

theorem after_close (place : Nat) : (ofSubscriptions capacity subs).close place =
    ofSubscriptions capacity (advance capacity (reaching [place] [.close]) subs) := by
  have hclose (s : Subscription) : s.run capacity [.close] = ⟨s.name,
      if s.queue.receiver = .listening then { s.queue with receiver := .closed } else s.queue⟩ :=
    rfl
  refine updateStream_of _ (fun s _ => ?_) fun s _ => ?_
  all_goals
    rw [hclose]
    by_cases hlistening : s.queue.receiver = .listening <;> simp [stream, entry, hlistening]

/-! ## Visits -/

theorem Proper.visit (h : Proper capacity subs) (v : Visit) :
    Proper capacity (v.change capacity subs) := by
  cases v with
  | subscribe name =>
      by_cases hlarge : largestBuffer < capacity
      · rw [Visit.change, Visit.joining, if_pos hlarge, List.append_nil]
        exact h.advance _
      · rw [Visit.change, Visit.joining, if_neg hlarge]
        exact ⟨distinct_join h.distinct name, fun h => absurd h hlarge⟩
  | unsubscribe | take | drain | close | drop =>
      rw [Visit.change, Visit.joining, List.append_nil]
      exact h.advance _

theorem visit_of (h : Proper capacity subs) (v : Visit) :
    (ofSubscriptions capacity subs).visit v =
      ofSubscriptions capacity (v.change capacity subs) := by
  cases v with
  | subscribe name =>
      change ((ofSubscriptions capacity subs).subscribe name).2 = _
      by_cases hlarge : largestBuffer < capacity
      · rw [Visit.change, Visit.joining, if_pos hlarge, List.append_nil, h.buffers hlarge]
        exact congrArg Prod.snd (if_pos hlarge)
      · rw [Visit.change, Visit.joining, if_neg hlarge]
        exact (congrArg Prod.snd (if_neg hlarge)).trans (withSubscriber_of h.distinct name)
  | unsubscribe name =>
      rw [Visit.change, Visit.joining, List.append_nil]
      exact remove_of h.distinct name
  | take place =>
      rw [Visit.change, Visit.joining, List.append_nil]
      exact after_take place
  | drain place =>
      rw [Visit.change, Visit.joining, List.append_nil]
      exact after_drain place
  | close place =>
      rw [Visit.change, Visit.joining, List.append_nil]
      exact after_close place
  | drop place =>
      rw [Visit.change, Visit.joining, List.append_nil]
      exact updateStream_of _ (fun _ _ => rfl) (fun _ _ => rfl)

end OrderLedger.Feed
