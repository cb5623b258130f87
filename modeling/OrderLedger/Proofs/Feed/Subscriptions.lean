import OrderLedger.Proofs.Feed.Publications
import OrderLedger.Proofs.Feed.Visits

/-!
The subscriptions of a feed as bounded queues of their own. A feed shows of every subscription
what a queue does that is offered the events since its subscription and nothing else, whatever
is done under other names and at other streams.
-/

namespace OrderLedger.Feed

open Subscription

/-- What is done with a feed. -/
inductive Operation where
  | visit (v : Visit)
  | publish (e : StockEvent)
  | publishAll (events : List StockEvent)

namespace Operation

/-- What an operation is for the queue of the subscription with a name and a place. -/
def view : Operation → String → Nat → List QueueStep
  | .visit v => v.view
  | .publish e => fun _ _ => [.offer e, .prune]
  | .publishAll events => fun _ _ => events.flatMap fun e => [.offer e, .prune]

/-- The subscription that an operation makes. -/
def joining (capacity : Nat) : Operation → List Subscription
  | .visit v => v.joining capacity
  | .publish _ | .publishAll _ => []

/-- The subscriptions after an operation. -/
def change (capacity : Nat) (subs : List Subscription) (o : Operation) : List Subscription :=
  advance capacity o.view subs ++ o.joining capacity

/-- The operations that are meant for the subscription with a name and a place alone. -/
def Concerns (name : String) (place : Nat) : Operation → Prop
  | .visit (.subscribe other) | .visit (.unsubscribe other) => other = name
  | .visit (.take other) | .visit (.drain other) | .visit (.close other) | .visit (.drop other) =>
      other = place
  | .publish _ | .publishAll _ => True

end Operation

def operate (f : Feed) : Operation → Feed
  | .visit v => f.visit v
  | .publish e => f.publish e
  | .publishAll events => f.publishAll events

def after (f : Feed) (os : List Operation) : Feed := os.foldl operate f

/-- The events that an operation reads from the stream of a place. -/
def reads (f : Feed) (place : Nat) : Operation → List StockEvent
  | .visit (.take other) =>
      if other = place then
        match (f.take other).1 with
        | .event e => [e]
        | .empty | .ended => []
      else []
  | .visit (.drain other) => if other = place then (f.drain other).1.1 else []
  | _ => []

/-- The events that the stream of a place yields. -/
def yielded (place : Nat) : Feed → List Operation → List StockEvent
  | _, [] => []
  | f, o :: os => f.reads place o ++ yielded place (f.operate o) os

/-- The subscriptions that are made, each with a queue that goes through what is done later. The
first one has the given place. -/
def subscriptions (capacity : Nat) : Nat → List Operation → List Subscription
  | _, [] => []
  | place, .visit (.subscribe name) :: later =>
      if largestBuffer < capacity then subscriptions capacity place later
      else
        ⟨name, Queue.fresh.run capacity (later.flatMap (·.view name place))⟩ ::
          subscriptions capacity (place + 1) later
  | place, _ :: later => subscriptions capacity place later

variable {capacity place : Nat} {subs : List Subscription} {s : Subscription} {name : String}

theorem Proper.operate (h : Proper capacity subs) (o : Operation) :
    Proper capacity (o.change capacity subs) := by
  cases o with
  | visit v => exact h.visit v
  | publish e =>
      rw [Operation.change, Operation.joining, List.append_nil]
      exact h.advance _
  | publishAll events =>
      rw [Operation.change, Operation.joining, List.append_nil]
      exact h.advance _

theorem operate_of (h : Proper capacity subs) (o : Operation) :
    (ofSubscriptions capacity subs).operate o =
      ofSubscriptions capacity (o.change capacity subs) := by
  cases o with
  | visit v => exact visit_of h v
  | publish e =>
      rw [Operation.change, Operation.joining, List.append_nil]
      exact publish_of h.distinct e
  | publishAll events =>
      rw [Operation.change, Operation.joining, List.append_nil]
      exact publishAll_of h.distinct events

theorem after_of (h : Proper capacity subs) (os : List Operation) :
    (ofSubscriptions capacity subs).after os =
        ofSubscriptions capacity (os.foldl (Operation.change capacity) subs) ∧
      Proper capacity (os.foldl (Operation.change capacity) subs) := by
  induction os generalizing subs with
  | nil => exact ⟨rfl, h⟩
  | cons o rest ih =>
      obtain ⟨hafter, hproper⟩ := ih (h.operate o)
      refine ⟨?_, hproper⟩
      rw [after, List.foldl_cons, operate_of h]
      exact hafter

theorem subscriptions_cons (o : Operation) (later : List Operation) :
    subscriptions capacity place (o :: later) =
      advance capacity (fun name i => later.flatMap (·.view name (place + i)))
          (o.joining capacity) ++
        subscriptions capacity (place + (o.joining capacity).length) later := by
  cases o with
  | visit v =>
      cases v with
      | subscribe name =>
          rw [subscriptions, Operation.joining, Visit.joining]
          split <;> rfl
      | _ => rfl
  | publish e => rfl
  | publishAll events => rfl

theorem foldl_change (subs : List Subscription) (os : List Operation) :
    os.foldl (Operation.change capacity) subs =
      advance capacity (fun name place => os.flatMap (·.view name place)) subs ++
        subscriptions capacity subs.length os := by
  induction os generalizing subs with
  | nil =>
      rw [subscriptions, List.append_nil]
      exact (advance_nil capacity subs).symm
  | cons o rest ih =>
      rw [List.foldl_cons, ih, Operation.change, advance_append, advance_advance, length_advance,
        List.length_append, length_advance, subscriptions_cons, List.append_assoc]
      rfl

theorem after_withBuffer (buffer : Nat) (os : List Operation) :
    (withBuffer buffer).after os =
        ofSubscriptions (max buffer 1) (subscriptions (max buffer 1) 0 os) ∧
      Proper (max buffer 1) (subscriptions (max buffer 1) 0 os) := by
  have h := after_of (Proper.nil (max buffer 1)) os
  rw [foldl_change] at h
  exact h

theorem subscriptions_append (os later : List Operation) :
    subscriptions capacity 0 (os ++ later) =
      advance capacity (fun name place => later.flatMap (·.view name place))
          (subscriptions capacity 0 os) ++
        subscriptions capacity (subscriptions capacity 0 os).length later := by
  have hall (os : List Operation) :
      subscriptions capacity 0 os = os.foldl (Operation.change capacity) [] :=
    (foldl_change [] os).symm
  rw [hall, List.foldl_append, foldl_change, ← hall]

/-! ## What is read -/

/-- What has been read of the subscription at a place, if there is one. -/
def deliveredAt (subs : List Subscription) (place : Nat) : List StockEvent :=
  subs[place]?.elim [] (·.queue.delivered)

theorem unread {steps : List QueueStep} (h : ∀ step ∈ steps, ∀ q : Queue, q.reads step = [])
    (s : Subscription) : (s.run capacity steps).queue.delivered = s.queue.delivered ++ [] := by
  rw [List.append_nil]
  exact Queue.delivered_run h s.queue

theorem reads_of (hs : subs[place]? = some s) (o : Operation) :
    (s.run capacity (o.view s.name place)).queue.delivered =
      s.queue.delivered ++ (ofSubscriptions capacity subs).reads place o := by
  cases o with
  | visit v =>
      cases v with
      | subscribe name | unsubscribe name =>
          refine unread (fun step hstep q => ?_) s
          rw [Operation.view, Visit.view, leaving] at hstep
          split at hstep
          · rw [List.mem_singleton.mp hstep]
            rfl
          · cases hstep
      | take other =>
          rw [Operation.view, Visit.view, reads]
          by_cases hplace : other = place
          · subst hplace
            rw [run_reaching_self, if_pos rfl, take_of hs, Queue.reading]
            refine (Queue.delivered_step capacity s.queue .take).trans (congrArg _ ?_)
            rw [Queue.reads]
            cases s.queue.buffered with
            | nil => cases s.queue.isOpen <;> rfl
            | cons e rest => rfl
          · rw [run_reaching_other hplace, if_neg hplace, List.append_nil]
      | drain other =>
          rw [Operation.view, Visit.view, reads]
          by_cases hplace : other = place
          · subst hplace
            rw [run_reaching_self, if_pos rfl, drain_of hs]
            rfl
          · rw [run_reaching_other hplace, if_neg hplace, List.append_nil]
      | close other | drop other =>
          refine unread (fun step hstep q => ?_) s
          rw [Operation.view, Visit.view, reaching] at hstep
          split at hstep
          · rw [List.mem_singleton.mp hstep]
            rfl
          · cases hstep
  | publish e =>
      refine unread (fun step hstep q => ?_) s
      rcases List.mem_pair.mp hstep with rfl | rfl <;> rfl
  | publishAll events =>
      refine unread (fun step hstep q => ?_) s
      obtain ⟨e, -, hstep⟩ := List.mem_flatMap.mp hstep
      rcases List.mem_pair.mp hstep with rfl | rfl <;> rfl

/-- A stream that is not there yet yields nothing. -/
theorem reads_of_none (hs : subs[place]? = none) (o : Operation) :
    (ofSubscriptions capacity subs).reads place o = [] := by
  have hstreams : (ofSubscriptions capacity subs).streams[place]? = none := by
    rw [getElem?_streams, hs]
    rfl
  unfold reads
  split
  · split
    · next hplace =>
        rw [hplace, take, hstreams]
    · rfl
  · split
    · next hplace =>
        rw [hplace, drain, hstreams]
    · rfl
  · rfl

theorem queue_of_joining {o : Operation} (hs : s ∈ o.joining capacity) :
    s.queue = Queue.fresh := by
  unfold Operation.joining Visit.joining at hs
  split at hs
  · split at hs
    · split at hs
      · cases hs
      · rw [List.mem_singleton.mp hs]
    all_goals cases hs
  all_goals cases hs

theorem deliveredAt_change (subs : List Subscription) (o : Operation) :
    deliveredAt (o.change capacity subs) place =
      deliveredAt subs place ++ (ofSubscriptions capacity subs).reads place o := by
  cases hs : subs[place]? with
  | some s =>
      rw [deliveredAt, deliveredAt, Operation.change, getElem?_advance_append hs, hs]
      exact reads_of hs o
  | none =>
      have hlength : subs.length ≤ place := List.getElem?_eq_none_iff.mp hs
      rw [reads_of_none hs, deliveredAt, deliveredAt, hs, Operation.change,
        List.getElem?_append_right (Nat.le_trans (Nat.le_of_eq length_advance) hlength)]
      cases hjoined : (o.joining capacity)[place - (advance capacity o.view subs).length]? with
      | none => rfl
      | some joined =>
          rw [Option.elim_some, queue_of_joining (List.mem_of_getElem? hjoined)]
          rfl

theorem deliveredAt_foldl (place : Nat) (h : Proper capacity subs) (os : List Operation) :
    deliveredAt (os.foldl (Operation.change capacity) subs) place =
      deliveredAt subs place ++ yielded place (ofSubscriptions capacity subs) os := by
  induction os generalizing subs with
  | nil => exact (List.append_nil _).symm
  | cons o rest ih =>
      rw [List.foldl_cons, ih (h.operate o), deliveredAt_change, List.append_assoc, yielded,
        operate_of h]

/-! ## Every subscription as its own queue -/

/-- A feed shows of the stream at a place what its subscription's queue holds. -/
structure Shows (f : Feed) (place : Nat) (s : Subscription) : Prop where
  taken : (f.take place).1 = s.queue.reading
  drained : (f.drain place).1 = (s.queue.buffered, s.queue.isOpen)
  missed : s.queue.isRegistered = true → f.dropped? s.name = some s.queue.dropped

theorem shows_of (h : Proper capacity subs) (hs : subs[place]? = some s) :
    (ofSubscriptions capacity subs).Shows place s := by
  refine ⟨take_of hs, drain_of hs, fun hregistered => ?_⟩
  rw [dropped?, subscriber?_of capacity h.distinct hs hregistered]
  rfl

/-- Whether a name is registered is seen in the queues of its subscriptions. -/
theorem dropped?_eq_none (h : Proper capacity subs) :
    (ofSubscriptions capacity subs).dropped? name = none ↔
      ∀ s ∈ subs, s.name = name → s.queue.isRegistered = false := by
  rw [dropped?, Option.map_eq_none_iff]
  constructor
  · intro hnone s hs hname
    obtain ⟨place, hs⟩ := List.getElem?_of_mem hs
    by_contra hregistered
    rw [Bool.not_eq_false] at hregistered
    rw [← hname, subscriber?_of capacity h.distinct hs hregistered] at hnone
    cases hnone
  · intro hleft
    by_contra hfound
    obtain ⟨r, hr⟩ := Option.ne_none_iff_exists'.mp hfound
    obtain ⟨hlisted, hname⟩ := (subscriber?_eq_some h.distinct).mp hr
    obtain ⟨s, hs, hentry⟩ := mem_subscribers.mp hlisted
    have hleft := hleft s (List.mem_of_getElem? hs) ((name_of_entry hentry).symm.trans hname)
    exact Bool.false_ne_true (hleft.symm.trans (entry_eq_some.mp hentry).1)

theorem view_of_other {o : Operation} (ho : ¬ o.Concerns name place) : o.view name place = [] := by
  cases o with
  | visit v =>
      cases v with
      | subscribe other | unsubscribe other => exact if_neg fun hname => ho hname.symm
      | take other | drain other | close other | drop other =>
          exact if_neg fun hplace => ho (List.mem_singleton.mp hplace).symm
  | publish e | publishAll events => exact absurd trivial ho

theorem sound_of_mem {os : List Operation} (hs : s ∈ subscriptions capacity place os) :
    s.queue.Sound capacity := by
  induction os generalizing place with
  | nil => cases hs
  | cons o rest ih =>
      rw [subscriptions_cons] at hs
      rcases List.mem_append.mp hs with hs | hs
      · obtain ⟨i, hi, rfl⟩ := List.mem_mapIdx.mp hs
        change Queue.Sound capacity (Queue.run capacity (Subscription.queue _) _)
        rw [queue_of_joining (List.getElem_mem hi)]
        exact Queue.sound_run _
      · exact ih hs

/-- What is promised of the subscription at a place after some operations. -/
structure KeepsApart (buffer : Nat) (os : List Operation) (place : Nat) (s : Subscription) :
    Prop where
  shown : ((withBuffer buffer).after os).Shows place s
  delivered : yielded place (withBuffer buffer) os = s.queue.delivered
  sound : s.queue.Sound (max buffer 1)
  later : ∀ more, (subscriptions (max buffer 1) 0 (os ++ more))[place]? =
    some (s.run (max buffer 1) (more.flatMap (·.view s.name place)))
  apart : ∀ o : Operation, ¬ o.Concerns s.name place →
    (subscriptions (max buffer 1) 0 (os ++ [o]))[place]? = some s
  settled : s.queue.isOpen = false → ∀ steps, s.queue.Settled (s.queue.run (max buffer 1) steps)

theorem keepsApart {buffer : Nat} {os : List Operation}
    (hs : (subscriptions (max buffer 1) 0 os)[place]? = some s) : KeepsApart buffer os place s := by
  obtain ⟨hafter, hproper⟩ := after_withBuffer buffer os
  have hlater (more : List Operation) :
      (subscriptions (max buffer 1) 0 (os ++ more))[place]? =
        some (s.run (max buffer 1) (more.flatMap (·.view s.name place))) := by
    rw [subscriptions_append, getElem?_advance_append hs]
  refine ⟨?_, ?_, sound_of_mem (List.mem_of_getElem? hs), hlater, fun o ho => ?_,
    Queue.settled_run⟩
  · rw [hafter]
    exact shows_of hproper hs
  · have hyielded := deliveredAt_foldl place (Proper.nil (max buffer 1)) os
    rw [foldl_change] at hyielded
    change deliveredAt (subscriptions (max buffer 1) 0 os) place =
      yielded place (withBuffer buffer) os at hyielded
    rw [← hyielded, deliveredAt, hs]
    rfl
  · rw [hlater, List.flatMap_singleton, view_of_other ho]
    rfl

/-- Every subscription is a bounded queue of its own, and the registry lists the ones that are
registered. -/
theorem subscriptions_are_queues (buffer : Nat) (os : List Operation) :
    let feed := (withBuffer buffer).after os
    let subs := subscriptions (max buffer 1) 0 os
    (∀ place s, subs[place]? = some s → KeepsApart buffer os place s) ∧
    (∀ name, (feed.subscribe name).1 =
      if largestBuffer < max buffer 1 then .error .buffer else .ok subs.length) ∧
    (∀ name, feed.dropped? name = none ↔
      ∀ s ∈ subs, s.name = name → s.queue.isRegistered = false) ∧
    NamesDistinct subs ∧
    feed.count = subs.countP fun s => s.queue.isRegistered := by
  intro feed subs
  obtain ⟨hafter, hproper⟩ := after_withBuffer buffer os
  change feed = ofSubscriptions (max buffer 1) subs at hafter
  rw [hafter]
  refine ⟨fun place s hs => keepsApart hs, fun name => ?_, fun name => dropped?_eq_none hproper,
    hproper.distinct, count_of⟩
  rw [subscribe, length_streams, apply_ite Prod.fst]
  rfl

/-- A second subscription under a name leaves to the first what it has buffered. -/
example (a b c : StockEvent) :
    subscriptions 1 0 [.visit (.subscribe "till"), .publish a, .publish b,
        .visit (.subscribe "till"), .publish c] =
      [⟨"till", ⟨[a, b], [], [a], 1, false, .listening⟩⟩,
       ⟨"till", ⟨[c], [], [c], 0, true, .listening⟩⟩] := rfl

end OrderLedger.Feed
