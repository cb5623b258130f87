import Mathlib.Data.List.Nodup
import Mathlib.Data.List.Pairwise
import OrderLedger.Proofs.Feed.Queue

/-!
A feed as the queues of its subscriptions. The registry finds subscriptions by names, which are
used again, and streams by their places; told by the queues, a change of the feed reaches every
subscription by itself.
-/

namespace OrderLedger

structure Subscription where
  name : String
  queue : Queue
  deriving DecidableEq, Repr

namespace Subscription

def run (capacity : Nat) (s : Subscription) (steps : List QueueStep) : Subscription :=
  { s with queue := s.queue.run capacity steps }

/-- The stream that a subscription's queue is read from. -/
def stream (s : Subscription) : EventStream :=
  ⟨s.queue.buffered, s.queue.isRegistered, s.queue.receiver⟩

/-- What the registry has of the subscription at a place. -/
def entry (s : Subscription) (place : Nat) : Option Subscriber :=
  if s.queue.isRegistered then some ⟨s.name, place, s.queue.dropped⟩ else none

/-- Lets every subscription go through steps of its own, by its name and its place. -/
def advance (capacity : Nat) (view : String → Nat → List QueueStep) (subs : List Subscription) :
    List Subscription :=
  subs.mapIdx fun place s => s.run capacity (view s.name place)

/-- No two subscriptions of one name are registered. -/
def NamesDistinct (subs : List Subscription) : Prop :=
  ∀ ⦃i j : Nat⦄ ⦃s t : Subscription⦄, subs[i]? = some s → subs[j]? = some t →
    s.queue.isRegistered = true → t.queue.isRegistered = true → s.name = t.name → i = j

variable {capacity place : Nat} {view more : String → Nat → List QueueStep}
  {subs : List Subscription} {s : Subscription} {r : Subscriber}

theorem run_nil (s : Subscription) : s.run capacity [] = s := rfl

theorem run_append (s : Subscription) (steps later : List QueueStep) :
    s.run capacity (steps ++ later) = (s.run capacity steps).run capacity later := by
  rw [run, Queue.run_append]
  rfl

theorem getElem?_advance (place : Nat) : (advance capacity view subs)[place]? =
    subs[place]?.map fun s : Subscription => s.run capacity (view s.name place) :=
  List.getElem?_mapIdx

/-- Subscriptions keep their places when others come. -/
theorem getElem?_advance_append (hs : subs[place]? = some s) (later : List Subscription) :
    (advance capacity view subs ++ later)[place]? = some (s.run capacity (view s.name place)) := by
  have hplace := (List.getElem?_eq_some_iff.mp hs).1
  have hadvanced : place < (advance capacity view subs).length := by
    rwa [advance, List.length_mapIdx]
  rw [List.getElem?_append_left hadvanced, getElem?_advance, hs]
  rfl

theorem zipIdx_advance : (advance capacity view subs).zipIdx =
    subs.zipIdx.map fun p => (p.1.run capacity (view p.1.name p.2), p.2) := by
  apply List.ext_getElem?
  intro place
  rw [List.getElem?_zipIdx, getElem?_advance, List.getElem?_map, List.getElem?_zipIdx]
  cases subs[place]? with
  | none => rfl
  | some s => simp

theorem advance_congr (h : ∀ (place : Nat) (s : Subscription), subs[place]? = some s →
      s.run capacity (view s.name place) = s.run capacity (more s.name place)) :
    advance capacity view subs = advance capacity more subs := by
  apply List.ext_getElem?
  intro place
  rw [getElem?_advance, getElem?_advance]
  cases hs : subs[place]? with
  | none => rfl
  | some s => exact congrArg some (h place s hs)

theorem advance_eq_self (h : ∀ (place : Nat) (s : Subscription), subs[place]? = some s →
      s.run capacity (view s.name place) = s) : advance capacity view subs = subs := by
  apply List.ext_getElem?
  intro place
  rw [getElem?_advance]
  cases hs : subs[place]? with
  | none => rfl
  | some s => exact congrArg some (h place s hs)

theorem advance_nil (capacity : Nat) (subs : List Subscription) :
    advance capacity (fun _ _ => []) subs = subs :=
  advance_eq_self fun _ s _ => run_nil s

theorem advance_advance : advance capacity more (advance capacity view subs) =
    advance capacity (fun name place => view name place ++ more name place) subs := by
  apply List.ext_getElem?
  intro place
  rw [getElem?_advance, getElem?_advance, getElem?_advance]
  cases subs[place]? with
  | none => rfl
  | some s => exact congrArg some (s.run_append _ _).symm

theorem advance_append (subs later : List Subscription) :
    advance capacity view (subs ++ later) = advance capacity view subs ++
      advance capacity (fun name place => view name (subs.length + place)) later := by
  rw [advance, List.mapIdx_append]
  simp only [Nat.add_comm, advance]

theorem length_advance : (advance capacity view subs).length = subs.length :=
  List.length_mapIdx

theorem NamesDistinct.advance (h : NamesDistinct subs) :
    NamesDistinct (advance capacity view subs) := by
  have hbefore {place : Nat} {s : Subscription}
      (hs : (Subscription.advance capacity view subs)[place]? = some s)
      (hregistered : s.queue.isRegistered = true) :
      ∃ before, subs[place]? = some before ∧ before.queue.isRegistered = true ∧
        before.name = s.name := by
    rw [getElem?_advance] at hs
    obtain ⟨before, hbefore, rfl⟩ := Option.map_eq_some_iff.mp hs
    refine ⟨before, hbefore, ?_, rfl⟩
    by_contra hleft
    rw [Bool.not_eq_true] at hleft
    have hstill : (before.queue.run capacity (view before.name place)).isRegistered = false :=
      Queue.isRegistered_run hleft _
    exact Bool.false_ne_true (hstill.symm.trans hregistered)
  intro i j s t hs ht hsregistered htregistered hname
  obtain ⟨s', hs', hsregistered', hsname⟩ := hbefore hs hsregistered
  obtain ⟨t', ht', htregistered', htname⟩ := hbefore ht htregistered
  exact h hs' ht' hsregistered' htregistered' (hsname.trans (hname.trans htname.symm))

theorem entry_eq_some : s.entry place = some r ↔
    s.queue.isRegistered = true ∧ r = ⟨s.name, place, s.queue.dropped⟩ := by
  rw [entry, Option.ite_none_right_eq_some, Option.some.injEq, eq_comm (a := r)]

theorem name_of_entry (h : s.entry place = some r) : r.name = s.name :=
  congrArg Subscriber.name (entry_eq_some.mp h).2

/-- The entries of other places have other names. -/
theorem NamesDistinct.name_ne (h : NamesDistinct subs) (hs : subs[place]? = some s)
    (hregistered : s.queue.isRegistered = true) {i : Nat} {t : Subscription}
    (ht : subs[i]? = some t) (hentry : t.entry i = some r) (hi : place ≠ i) : r.name ≠ s.name := by
  intro hname
  refine hi (h hs ht hregistered (entry_eq_some.mp hentry).1 ?_)
  rw [← hname, name_of_entry hentry]

end Subscription

namespace Feed

open Subscription

/-- The feed that has the given subscriptions, the registered ones of them in its registry. -/
def ofSubscriptions (capacity : Nat) (subs : List Subscription) : Feed :=
  { capacity
    streams := subs.map stream
    subscribers := subs.zipIdx.filterMap fun p => p.1.entry p.2 }

variable {capacity place : Nat} {subs : List Subscription} {s : Subscription} {r : Subscriber}
  {view : String → Nat → List QueueStep} {name : String} {steps : List QueueStep}

theorem mem_subscribers : r ∈ (ofSubscriptions capacity subs).subscribers ↔
    ∃ s, subs[r.stream]? = some s ∧ s.entry r.stream = some r := by
  rw [ofSubscriptions, List.mem_filterMap]
  constructor
  · rintro ⟨⟨s, place⟩, hplace, hentry⟩
    have hs := List.mem_zipIdx_iff_getElem?.mp hplace
    obtain ⟨-, rfl⟩ := entry_eq_some.mp hentry
    exact ⟨s, hs, hentry⟩
  · rintro ⟨s, hs, hentry⟩
    exact ⟨(s, r.stream), List.mem_zipIdx_iff_getElem?.mpr hs, hentry⟩

theorem listed_of (capacity : Nat) (hs : subs[place]? = some s)
    (hregistered : s.queue.isRegistered = true) :
    ⟨s.name, place, s.queue.dropped⟩ ∈ (ofSubscriptions capacity subs).subscribers :=
  mem_subscribers.mpr ⟨s, hs, entry_eq_some.mpr ⟨hregistered, rfl⟩⟩

theorem getElem?_streams : (ofSubscriptions capacity subs).streams[place]? =
    subs[place]?.map stream :=
  List.getElem?_map

theorem length_streams : (ofSubscriptions capacity subs).streams.length = subs.length :=
  List.length_map _

theorem name_of_subscriber? {f : Feed} (h : f.subscriber? name = some r) : r.name = name := by
  have hname := List.find?_some (p := fun s : Subscriber => s.name == name) h
  exact eq_of_beq hname

/-- A name finds the registered subscription that has it. -/
theorem subscriber?_eq_some (hdistinct : NamesDistinct subs) :
    (ofSubscriptions capacity subs).subscriber? name = some r ↔
      r ∈ (ofSubscriptions capacity subs).subscribers ∧ r.name = name := by
  constructor
  · intro h
    exact ⟨List.mem_of_find?_eq_some h, name_of_subscriber? h⟩
  · rintro ⟨hr, hname⟩
    cases hfound : (ofSubscriptions capacity subs).subscriber? name with
    | none => exact absurd (beq_iff_eq.mpr hname) (List.find?_eq_none.mp hfound r hr)
    | some other =>
        -- Both are registered under the name, so they are at one place.
        have hother := name_of_subscriber? hfound
        obtain ⟨s, hs, hsentry⟩ := mem_subscribers.mp hr
        obtain ⟨t, ht, htentry⟩ := mem_subscribers.mp (List.mem_of_find?_eq_some hfound)
        have hplace := hdistinct hs ht (entry_eq_some.mp hsentry).1 (entry_eq_some.mp htentry).1
          ((name_of_entry hsentry).symm.trans
            (hname.trans (hother.symm.trans (name_of_entry htentry))))
        rw [hplace] at hs hsentry
        cases hs.symm.trans ht
        exact htentry.symm.trans hsentry

theorem subscriber?_of (capacity : Nat) (hdistinct : NamesDistinct subs)
    (hs : subs[place]? = some s) (hregistered : s.queue.isRegistered = true) :
    (ofSubscriptions capacity subs).subscriber? s.name =
      some ⟨s.name, place, s.queue.dropped⟩ :=
  (subscriber?_eq_some hdistinct).mpr ⟨listed_of capacity hs hregistered, rfl⟩

theorem streams_nodup : ((ofSubscriptions capacity subs).subscribers.map (·.stream)).Nodup := by
  have hplaces : (subs.zipIdx.map Prod.snd).Nodup := by
    rw [List.zipIdx_map_snd]
    exact List.nodup_range'
  rw [List.Nodup, List.pairwise_map] at hplaces ⊢
  refine List.Pairwise.filterMap _ (fun p q hne a ha b hb => ?_) hplaces
  obtain ⟨-, rfl⟩ := entry_eq_some.mp ha
  obtain ⟨-, rfl⟩ := entry_eq_some.mp hb
  exact hne

theorem count_of : (ofSubscriptions capacity subs).count =
    subs.countP fun s => s.queue.isRegistered := by
  have hentry (s : Subscription) (place : Nat) :
      (s.entry place).isSome = s.queue.isRegistered := by
    rw [entry]
    cases s.queue.isRegistered <;> rfl
  rw [count, ofSubscriptions, List.length_filterMap_eq_countP]
  simp only [hentry]
  rw [← List.zipIdx_map_fst 0 subs, List.countP_map, List.zipIdx_map_fst]
  rfl

/-- The subscribers after a change, told by what it makes of an entry. -/
theorem subscribers_advance (change : Subscriber → Option Subscriber)
    (h : ∀ (place : Nat) (s : Subscription), subs[place]? = some s →
      (s.run capacity (view s.name place)).entry place = (s.entry place).bind change) :
    (ofSubscriptions capacity (advance capacity view subs)).subscribers =
      (ofSubscriptions capacity subs).subscribers.filterMap change := by
  rw [ofSubscriptions, ofSubscriptions, zipIdx_advance, List.filterMap_map,
    List.filterMap_filterMap]
  apply List.filterMap_congr
  intro p hp
  exact h p.2 p.1 (List.mem_zipIdx_iff_getElem?.mp hp)

/-- The streams after a change at one place. -/
theorem streams_advance (change : EventStream → EventStream)
    (h : ∀ (i : Nat) (s : Subscription), subs[i]? = some s →
      (s.run capacity (view s.name i)).stream = if place = i then change s.stream else s.stream) :
    (ofSubscriptions capacity (advance capacity view subs)).streams =
      (ofSubscriptions capacity subs).streams.modify place change := by
  apply List.ext_getElem?
  intro i
  rw [getElem?_streams, getElem?_advance, List.getElem?_modify, getElem?_streams]
  cases hs : subs[i]? with
  | none => rfl
  | some s =>
      refine congrArg some ((h i s hs).trans ?_)
      split <;> rfl

theorem eq_ofSubscriptions {f : Feed} (hcapacity : f.capacity = capacity)
    (hstreams : f.streams = (ofSubscriptions capacity subs).streams)
    (hsubscribers : f.subscribers = (ofSubscriptions capacity subs).subscribers) :
    f = ofSubscriptions capacity subs := by
  obtain ⟨_, _, _⟩ := f
  rw [ofSubscriptions, mk.injEq]
  exact ⟨hcapacity, hstreams, hsubscribers⟩

/-! ## Leaving -/

/-- A name is given up. -/
def leaving (name other : String) (_place : Nat) : List QueueStep :=
  if other = name then [.leave] else []

theorem run_leaving_of_left (h : s.name = name → s.queue.isRegistered = false) :
    s.run capacity (leaving name s.name place) = s := by
  rw [leaving]
  split
  · next hname =>
      exact congrArg (Subscription.mk s.name) (Queue.leave_of_left (h hname))
  · rfl

theorem stream_leaving (hdistinct : NamesDistinct subs) (hs : subs[place]? = some s)
    (hregistered : s.queue.isRegistered = true) {i : Nat} {t : Subscription}
    (ht : subs[i]? = some t) : (t.run capacity (leaving s.name t.name i)).stream =
      if place = i then { t.stream with isFed := false } else t.stream := by
  split
  · next hplace =>
      rw [← hplace, hs] at ht
      cases ht
      rw [leaving, if_pos rfl]
      rfl
  · next hplace =>
      -- An earlier subscription of the name has left before: names are distinct.
      refine congrArg stream (run_leaving_of_left fun hname => ?_)
      by_contra htregistered
      rw [Bool.not_eq_false] at htregistered
      exact hplace (hdistinct hs ht hregistered htregistered hname.symm)

theorem entry_leaving (name : String) : (s.run capacity (leaving name s.name place)).entry place =
    (s.entry place).bind (Option.guard fun r => r.name != name) := by
  rw [entry, entry, leaving]
  by_cases hname : s.name = name
  · rw [if_pos hname]
    cases s.queue.isRegistered <;>
      simp [run, Queue.run, Queue.step, Queue.leave, Option.guard, hname]
  · rw [if_neg hname]
    cases hregistered : s.queue.isRegistered <;>
      simp [run, Queue.run, hregistered, Option.guard, hname]

theorem remove_of (hdistinct : NamesDistinct subs) (name : String) :
    (ofSubscriptions capacity subs).remove name =
      ofSubscriptions capacity (advance capacity (leaving name) subs) := by
  cases hfound : (ofSubscriptions capacity subs).subscriber? name with
  | none =>
      have hsame : advance capacity (leaving name) subs = subs := by
        refine advance_eq_self fun place s hs => run_leaving_of_left fun hname => ?_
        by_contra hregistered
        rw [Bool.not_eq_false] at hregistered
        have hlisted := listed_of capacity hs hregistered
        exact List.find?_eq_none.mp hfound _ hlisted (beq_iff_eq.mpr hname)
      rw [remove, hfound, hsame]
  | some r =>
      obtain ⟨hr, hname⟩ := (subscriber?_eq_some hdistinct).mp hfound
      obtain ⟨s, hs, hentry⟩ := mem_subscribers.mp hr
      have hsname : s.name = name := (name_of_entry hentry).symm.trans hname
      subst hsname
      rw [remove, hfound]
      refine eq_ofSubscriptions rfl ?_ ?_
      · exact (streams_advance _ fun i t ht =>
          stream_leaving hdistinct hs (entry_eq_some.mp hentry).1 ht).symm
      · rw [subscribers_advance _ fun place t _ => entry_leaving s.name, List.filterMap_eq_filter]

/-! ## Steps of single subscriptions -/

/-- The subscriptions at some places go through the same steps. -/
def reaching (places : List Nat) (steps : List QueueStep) (_name : String) (place : Nat) :
    List QueueStep :=
  if place ∈ places then steps else []

theorem reaching_one (place i : Nat) :
    reaching [place] steps name i = if place = i then steps else [] := by
  simp only [reaching, List.mem_singleton, eq_comm]

theorem run_reaching_self (s : Subscription) :
    s.run capacity (reaching [place] steps name place) = s.run capacity steps := by
  rw [reaching_one, if_pos rfl]

theorem run_reaching_other {i : Nat} (h : place ≠ i) (s : Subscription) :
    s.run capacity (reaching [place] steps name i) = s := by
  rw [reaching_one, if_neg h]
  rfl

theorem streams_reaching (change : EventStream → EventStream)
    (h : ∀ s : Subscription, subs[place]? = some s →
      (s.run capacity steps).stream = change s.stream) :
    (ofSubscriptions capacity (advance capacity (reaching [place] steps) subs)).streams =
      (ofSubscriptions capacity subs).streams.modify place change := by
  refine streams_advance _ fun i s hs => ?_
  split
  · next hi =>
      subst hi
      rw [run_reaching_self, h s hs]
  · next hi => rw [run_reaching_other hi]

theorem subscribers_reaching (h : ∀ s : Subscription, subs[place]? = some s →
      (s.run capacity steps).entry place = s.entry place) :
    (ofSubscriptions capacity (advance capacity (reaching [place] steps) subs)).subscribers =
      (ofSubscriptions capacity subs).subscribers := by
  refine (subscribers_advance _ fun i s hs => ?_).trans List.filterMap_some
  rw [Option.bind_fun_some]
  by_cases hi : place = i
  · subst hi
    rw [run_reaching_self, h s hs]
  · rw [run_reaching_other hi]

end Feed

end OrderLedger
