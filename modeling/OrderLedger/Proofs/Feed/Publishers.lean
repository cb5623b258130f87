import OrderLedger.Proofs.Feed.Subscriptions

/-!
Publishers at work side by side. A publisher offers its event and notes whom it finds closed, and
removes those later; names are given up and used again in between.
-/

namespace OrderLedger

open Feed Subscription

/-- A feed, and what every publisher noted when it offered its event. -/
structure Broadcast where
  feed : Feed
  found : List (List String)

inductive BroadcastStep where
  | visit (v : Visit)
  /-- The next publisher offers an event and notes the subscriptions that it finds closed. -/
  | offer (e : StockEvent)
  /-- A publisher removes what it noted. -/
  | prune (publisher : Nat)

namespace BroadcastStep

/-- The steps by which the subscription with a name and a place may leave the registry after the
given ones. A publisher that prunes needs a receiver that was closed. -/
def Removes (name : String) (place : Nat) (during : List BroadcastStep) : BroadcastStep → Prop
  | .visit (.subscribe other) | .visit (.unsubscribe other) => other = name
  | .prune _ => .visit (.close place) ∈ during ∨ .visit (.drop place) ∈ during
  | _ => False

/-- The steps that neither give up a name nor close the receiver at a place. -/
def Spares (name : String) (place : Nat) : BroadcastStep → Prop
  | .visit (.subscribe other) | .visit (.unsubscribe other) => other ≠ name
  | .visit (.close other) | .visit (.drop other) => other ≠ place
  | _ => True

/-- What a step that spares the subscription at a place is for its queue. -/
def reaches (place : Nat) : BroadcastStep → List QueueStep
  | .offer e => [.offer e]
  | .visit (.take other) => if other = place then [.take] else []
  | .visit (.drain other) => if other = place then [.drain] else []
  | _ => []

def event? : BroadcastStep → Option StockEvent
  | .offer e => some e
  | .visit _ | .prune _ => none

end BroadcastStep

namespace Broadcast

def start (buffer : Nat) : Broadcast := ⟨Feed.withBuffer buffer, []⟩

def step (b : Broadcast) : BroadcastStep → Broadcast
  | .visit v => { b with feed := b.feed.visit v }
  | .offer e => ⟨(b.feed.offer e).2, b.found ++ [(b.feed.offer e).1]⟩
  | .prune publisher => { b with feed := b.feed.prune (b.found.getD publisher []) }

def run (b : Broadcast) (steps : List BroadcastStep) : Broadcast := steps.foldl step b

/-- Whether the registry has the subscription of a place. -/
def isListed (b : Broadcast) (place : Nat) : Bool := b.feed.subscribers.any (·.stream == place)

/-- Whether the stream of a place has a subscription. -/
def isFed (b : Broadcast) (place : Nat) : Bool := b.feed.streams[place]?.any (·.isFed)

/-- The stream of a place ends at a step: it was fed before and is not fed any more. -/
def EndsAt (b : Broadcast) (place : Nat) (steps : List BroadcastStep) (n : Nat) : Prop :=
  (b.run (steps.take n)).isFed place = true ∧ (b.run (steps.take (n + 1))).isFed place = false

/-- A publication is an offer and the removal of what was noted at it. -/
theorem publish_eq (b : Broadcast) (e : StockEvent) :
    (b.run [.offer e, .prune b.found.length]).feed = b.feed.publish e := by
  have hnoted : (b.found ++ [(b.feed.offer e).1]).getD b.found.length [] = (b.feed.offer e).1 := by
    simp
  exact congrArg (Feed.prune (b.feed.offer e).2) hnoted

/-! ## The queue of one subscription -/

/-- What a step is for the queue of the subscription with a name and a place. -/
def view (b : Broadcast) : BroadcastStep → String → Nat → List QueueStep
  | .visit v => v.view
  | .offer e => fun _ _ => [.offer e]
  | .prune publisher => pruning (b.found.getD publisher [])

/-- What the steps of a run are for the queue of the subscription with a name and a place. -/
def history (name : String) (place : Nat) : Broadcast → List BroadcastStep → List QueueStep
  | _, [] => []
  | b, x :: rest => b.view x name place ++ history name place (b.step x) rest

variable {capacity place : Nat} {name : String} {b : Broadcast} {q : Queue}
  {subs : List Subscription} {steps later : List BroadcastStep}

theorem run_append (b : Broadcast) (steps later : List BroadcastStep) :
    b.run (steps ++ later) = (b.run steps).run later :=
  List.foldl_append

/-- A broadcast has the subscription of a name at a place, with the given queue. -/
def Has (capacity : Nat) (b : Broadcast) (place : Nat) (name : String) (q : Queue) : Prop :=
  ∃ subs, b.feed = ofSubscriptions capacity subs ∧ Proper capacity subs ∧
    subs[place]? = some ⟨name, q⟩

theorem step_of (h : Proper capacity subs) (hfeed : b.feed = ofSubscriptions capacity subs)
    (x : BroadcastStep) : ∃ more,
      (b.step x).feed = ofSubscriptions capacity (advance capacity (b.view x) subs ++ more) ∧
      Proper capacity (advance capacity (b.view x) subs ++ more) := by
  cases x with
  | visit v =>
      refine ⟨_, ?_, h.visit v⟩
      rw [step, hfeed]
      exact visit_of h v
  | offer e =>
      refine ⟨[], ?_, ?_⟩
      · rw [step, hfeed, List.append_nil]
        exact offer_of h.distinct e
      · rw [List.append_nil]
        exact h.advance _
  | prune publisher =>
      refine ⟨[], ?_, ?_⟩
      · rw [step, hfeed, List.append_nil]
        exact prune_of h.distinct _
      · rw [List.append_nil]
        exact h.advance _

theorem Has.step (h : b.Has capacity place name q) (x : BroadcastStep) :
    (b.step x).Has capacity place name (q.run capacity (b.view x name place)) := by
  obtain ⟨subs, hfeed, hproper, hs⟩ := h
  obtain ⟨more, hstep, hproper⟩ := step_of hproper hfeed x
  exact ⟨_, hstep, hproper, getElem?_advance_append hs more⟩

theorem Has.run (h : b.Has capacity place name q) (steps : List BroadcastStep) :
    (b.run steps).Has capacity place name (q.run capacity (history name place b steps)) := by
  induction steps generalizing b q with
  | nil => exact h
  | cons x rest ih =>
      rw [history, Queue.run_append]
      exact ih (h.step x)

theorem Has.isListed (h : b.Has capacity place name q) : b.isListed place = q.isRegistered := by
  obtain ⟨subs, hfeed, -, hs⟩ := h
  rw [Broadcast.isListed, hfeed, Bool.eq_iff_iff, List.any_eq_true]
  constructor
  · rintro ⟨r, hr, hplace⟩
    obtain ⟨s, hs', hentry⟩ := mem_subscribers.mp hr
    rw [eq_of_beq hplace] at hs'
    cases hs.symm.trans hs'
    exact (entry_eq_some.mp hentry).1
  · intro hregistered
    exact ⟨_, listed_of capacity hs hregistered, beq_self_eq_true place⟩

theorem Has.isFed (h : b.Has capacity place name q) : b.isFed place = q.isRegistered := by
  obtain ⟨subs, hfeed, -, hs⟩ := h
  rw [Broadcast.isFed, hfeed, getElem?_streams, hs]
  rfl

theorem Has.shows (h : b.Has capacity place name q) : b.feed.Shows place ⟨name, q⟩ := by
  obtain ⟨subs, hfeed, hproper, hs⟩ := h
  rw [hfeed]
  exact shows_of hproper hs

theorem run_of (hfeed : b.feed = ofSubscriptions capacity subs) (h : Proper capacity subs)
    (steps : List BroadcastStep) :
    ∃ after, (b.run steps).feed = ofSubscriptions capacity after ∧ Proper capacity after := by
  induction steps generalizing b subs with
  | nil => exact ⟨subs, hfeed, h⟩
  | cons x rest ih =>
      obtain ⟨more, hstep, hproper⟩ := step_of h hfeed x
      exact ih hstep hproper

/-- A new subscription has a queue that has taken in nothing yet. -/
theorem has_joined {buffer : Nat} {earlier : List BroadcastStep}
    (hmade : (((start buffer).run earlier).feed.subscribe name).1 = .ok place) :
    (((start buffer).run earlier).step (.visit (.subscribe name))).Has (max buffer 1) place name
      Queue.fresh := by
  obtain ⟨subs, hfeed, hproper⟩ := @run_of _ (start buffer) [] rfl (Proper.nil _) earlier
  refine ⟨_, (congrArg (Feed.visit · (.subscribe name)) hfeed).trans
    (visit_of hproper (.subscribe name)), hproper.visit (.subscribe name), ?_⟩
  rw [hfeed, subscribe, length_streams] at hmade
  rw [Visit.change, Visit.joining]
  split at hmade
  · cases hmade
  · next hbuffer =>
      cases hmade
      have hfits : ¬ largestBuffer < max buffer 1 := hbuffer
      have hlast : subs.length =
          (advance (max buffer 1) (Visit.subscribe name).view subs).length :=
        length_advance.symm
      rw [if_neg hfits, hlast]
      exact List.getElem?_concat_length

/-! ## How a subscription leaves -/

/-- The steps that can be the given one for the queue of the subscription with a name and a
place. -/
def Means (name : String) (place : Nat) (x : BroadcastStep) : QueueStep → Prop
  | .offer e => x = .offer e
  | .leave => x = .visit (.subscribe name) ∨ x = .visit (.unsubscribe name)
  | .prune => ∃ publisher, x = .prune publisher
  | .take => x = .visit (.take place)
  | .drain => x = .visit (.drain place)
  | .close => x = .visit (.close place)
  | .drop => x = .visit (.drop place)

theorem means_of_mem_view {x : BroadcastStep} {step : QueueStep}
    (h : step ∈ b.view x name place) : Means name place x step := by
  have hreaching {other : Nat} {only : QueueStep}
      (h : step ∈ reaching [other] [only] name place) : step = only ∧ other = place := by
    rw [reaching] at h
    split at h
    · next hplace => exact ⟨List.mem_singleton.mp h, (List.mem_singleton.mp hplace).symm⟩
    · cases h
  have hleaving {other : String} (h : step ∈ leaving other name place) :
      step = .leave ∧ other = name := by
    rw [leaving] at h
    split at h
    · next hname => exact ⟨List.mem_singleton.mp h, hname.symm⟩
    · cases h
  cases x with
  | offer e =>
      cases List.mem_singleton.mp h
      rfl
  | prune publisher =>
      rw [view, pruning] at h
      split at h
      · cases List.mem_singleton.mp h
        exact ⟨publisher, rfl⟩
      · cases h
  | visit v =>
      cases v with
      | subscribe other =>
          obtain ⟨rfl, rfl⟩ := hleaving h
          exact Or.inl rfl
      | unsubscribe other =>
          obtain ⟨rfl, rfl⟩ := hleaving h
          exact Or.inr rfl
      | take other | drain other | close other | drop other =>
          obtain ⟨rfl, rfl⟩ := hreaching h
          rfl

theorem means_of_mem_history {step : QueueStep} (h : step ∈ history name place b steps) :
    ∃ x ∈ steps, Means name place x step := by
  induction steps generalizing b with
  | nil => cases h
  | cons y rest ih =>
      rcases List.mem_append.mp h with h | h
      · exact ⟨y, List.mem_cons_self, means_of_mem_view h⟩
      · obtain ⟨x, hx, hmeans⟩ := ih h
        exact ⟨x, List.mem_cons_of_mem y hx, hmeans⟩

/-- A receiver that does not listen any more was closed or dropped. -/
theorem closed_of_silent
    (h : (q.run capacity (history name place b steps)).receiver ≠ q.receiver) :
    .visit (.close place) ∈ steps ∨ .visit (.drop place) ∈ steps := by
  by_contra hnone
  rw [not_or] at hnone
  refine h (Queue.receiver_run (fun hclose => hnone.1 ?_) (fun hdrop => hnone.2 ?_) q)
  · obtain ⟨x, hx, rfl⟩ := means_of_mem_history hclose
    exact hx
  · obtain ⟨x, hx, rfl⟩ := means_of_mem_history hdrop
    exact hx

theorem removes_of_leaving {x : BroadcastStep} {during : List BroadcastStep}
    (hsilent : q.receiver ≠ .listening →
      .visit (.close place) ∈ during ∨ .visit (.drop place) ∈ during)
    (hin : q.isRegistered = true)
    (hout : (q.run capacity (b.view x name place)).isRegistered = false) :
    x.Removes name place during := by
  rcases Queue.leave_or_prune_mem hin hout with hleave | hprune
  · rcases means_of_mem_view hleave with rfl | rfl <;> rfl
  · -- However old the note is, a receiver that listens by now is kept.
    obtain ⟨publisher, rfl⟩ := means_of_mem_view hprune
    refine hsilent fun hlistening => ?_
    rw [view, queue_pruning_of_kept capacity place fun _ _ => hlistening, hin] at hout
    cases hout

/-- A subscription that left did so at one of the steps. -/
theorem exists_leaving (hin : q.isRegistered = true)
    (hout : (q.run capacity (history name place b steps)).isRegistered = false) :
    ∃ during x rest, steps = during ++ x :: rest ∧
      (q.run capacity (history name place b during)).isRegistered = true ∧
      ((q.run capacity (history name place b during)).run capacity
        ((b.run during).view x name place)).isRegistered = false := by
  induction steps generalizing b q with
  | nil => exact absurd hin (Bool.eq_false_iff.mp hout)
  | cons x rest ih =>
      cases hstep : (q.run capacity (b.view x name place)).isRegistered with
      | false => exact ⟨[], x, rest, rfl, hin, hstep⟩
      | true =>
          rw [history, Queue.run_append] at hout
          obtain ⟨during, y, more, rfl, hbefore, hafter⟩ := ih hstep hout
          refine ⟨x :: during, y, more, rfl, ?_, ?_⟩
          · rwa [history, Queue.run_append]
          · rwa [history, Queue.run_append]

/-! ## A subscription that is spared -/

theorem run_view_of_spared {x : BroadcastStep} (hopen : q.isOpen = true)
    (hx : x.Spares name place) :
    q.run capacity (b.view x name place) = q.run capacity (x.reaches place) ∧
      (q.run capacity (x.reaches place)).isOpen = true ∧
      (q.run capacity (x.reaches place)).offered = q.offered ++ x.event?.toList := by
  have hnothing : (q.run capacity []).isOpen = true ∧
      (q.run capacity []).offered = q.offered ++ [] :=
    ⟨hopen, (List.append_nil _).symm⟩
  cases x with
  | offer e =>
      exact ⟨rfl, (Queue.isOpen_offer e).trans hopen, Queue.offered_offer hopen e⟩
  | prune publisher =>
      exact ⟨queue_pruning_of_kept capacity place
        fun _ _ => (Queue.isOpen_eq_true.mp hopen).2, hnothing⟩
  | visit v =>
      cases v with
      | subscribe other | unsubscribe other =>
          rw [view, Visit.view, leaving, if_neg (Ne.symm hx)]
          exact ⟨rfl, hnothing⟩
      | close other | drop other =>
          rw [view, Visit.view, reaching_one, if_neg hx]
          exact ⟨rfl, hnothing⟩
      | take other =>
          rw [view, Visit.view, reaching_one, BroadcastStep.reaches]
          refine ⟨rfl, ?_⟩
          split
          · change q.take.isOpen = true ∧ q.take.offered = q.offered ++ []
            rw [Queue.take_eq]
            exact ⟨hopen, hnothing.2⟩
          · exact hnothing
      | drain other =>
          rw [view, Visit.view, reaching_one, BroadcastStep.reaches]
          refine ⟨rfl, ?_⟩
          split
          · exact ⟨hopen, hnothing.2⟩
          · exact hnothing

theorem run_spared (hopen : q.isOpen = true) (hspared : ∀ x ∈ steps, x.Spares name place) :
    q.run capacity (history name place b steps) =
        q.run capacity (steps.flatMap (·.reaches place)) ∧
      (q.run capacity (history name place b steps)).isOpen = true ∧
      (q.run capacity (history name place b steps)).offered =
        q.offered ++ steps.filterMap BroadcastStep.event? := by
  induction steps generalizing b q with
  | nil => exact ⟨rfl, hopen, (List.append_nil _).symm⟩
  | cons x rest ih =>
      obtain ⟨hx, hrest⟩ := List.forall_mem_cons.mp hspared
      obtain ⟨hview, hstill, hoffered⟩ := @run_view_of_spared capacity _ _ b _ _ hopen hx
      obtain ⟨hrun, hopen, hmore⟩ := ih hstill hrest (b := b.step x)
      rw [history, List.flatMap_cons, Queue.run_append, Queue.run_append, hview]
      refine ⟨hrun, hopen, hmore.trans ?_⟩
      rw [hoffered, List.append_assoc]
      cases x <;> rfl

/-! ## The end of a stream -/

theorem reading_eq_ended : q.reading = .ended ↔ q.buffered = [] ∧ q.isOpen = false := by
  rw [Queue.reading]
  cases q.buffered with
  | nil => cases q.isOpen <;> simp
  | cons e rest => simp

theorem Has.stays_ended (h : b.Has capacity place name q)
    (hended : (b.feed.take place).1 = .ended) (steps : List BroadcastStep) :
    ((b.run steps).feed.take place).1 = .ended := by
  obtain ⟨hempty, hshut⟩ := reading_eq_ended.mp (h.shows.taken.symm.trans hended)
  rw [(h.run steps).shows.taken, reading_eq_ended]
  have hsettled : q.Settled (q.run capacity (history name place b steps)) :=
    Queue.settled_run hshut _
  exact ⟨hsettled.spent hempty, hsettled.shut⟩

theorem Has.stays_cut (h : b.Has capacity place name q) (hcut : b.isFed place = false)
    (steps : List BroadcastStep) : (b.run steps).isFed place = false := by
  rw [(h.run steps).isFed]
  exact Queue.isRegistered_run (h.isFed.symm.trans hcut) _

theorem Has.ends_once {m n : Nat} (h : b.Has capacity place name q)
    (hm : b.EndsAt place steps m) (hn : b.EndsAt place steps n) : m = n := by
  have hlater {m n : Nat} (hm : b.EndsAt place steps m) (hn : b.EndsAt place steps n) : n ≤ m := by
    by_contra hlt
    have hsplit : steps.take n =
        steps.take (m + 1) ++ (steps.drop (m + 1)).take (n - (m + 1)) := by
      rw [← List.take_add]
      congr
      omega
    have hcut := (h.run _).stays_cut hm.2 ((steps.drop (m + 1)).take (n - (m + 1)))
    rw [← run_append, ← hsplit, hn.1] at hcut
    cases hcut
  exact Nat.le_antisymm (hlater hn hm) (hlater hm hn)

/-! ## Every way of working side by side -/

/-- A subscription leaves the registry by its name or after its receiver was closed, whatever
publishers have noted before. Otherwise it takes in all events for which there is room. Its stream
ends once at most. -/
theorem live_subscription_stays {buffer place : Nat} {name : String}
    {earlier : List BroadcastStep} (later : List BroadcastStep)
    (hmade : (((start buffer).run earlier).feed.subscribe name).1 = .ok place) :
    let joined := ((start buffer).run earlier).step (.visit (.subscribe name))
    let now := joined.run later
    joined.isListed place = true ∧
    (now.isListed place = false → ∃ during x rest, later = during ++ x :: rest ∧
      (joined.run during).isListed place = true ∧
      (joined.run (during ++ [x])).isListed place = false ∧ x.Removes name place during) ∧
    ((∀ x ∈ later, x.Spares name place) → now.isListed place = true ∧
      ∃ q : Queue, q = Queue.fresh.run (max buffer 1) (later.flatMap (·.reaches place)) ∧
        q.offered = later.filterMap BroadcastStep.event? ∧ now.feed.Shows place ⟨name, q⟩) ∧
    now.isFed place = now.isListed place ∧
    (∀ m n, joined.EndsAt place later m → joined.EndsAt place later n → m = n) ∧
    (∀ during rest, later = during ++ rest → ((joined.run during).feed.take place).1 = .ended →
      (now.feed.take place).1 = .ended) := by
  intro joined now
  have hjoined : joined.Has (max buffer 1) place name Queue.fresh := has_joined hmade
  have hnow : now.Has _ place name _ := hjoined.run later
  refine ⟨hjoined.isListed, fun hleft => ?_, fun hspared => ?_, hnow.isFed.trans hnow.isListed.symm,
    fun m n hm hn => hjoined.ends_once hm hn, ?_⟩
  · obtain ⟨during, x, rest, hsplit, hin, hout⟩ :=
      exists_leaving rfl (hnow.isListed.symm.trans hleft)
    have hduring := hjoined.run during
    refine ⟨during, x, rest, hsplit, hduring.isListed.trans hin, ?_,
      removes_of_leaving closed_of_silent hin hout⟩
    rw [run_append]
    exact (hduring.step x).isListed.trans hout
  · have hopen : Queue.fresh.isOpen = true := rfl
    obtain ⟨hrun, hstill, hoffered⟩ := run_spared hopen hspared (b := joined)
    refine ⟨hnow.isListed.trans (Queue.isOpen_eq_true.mp hstill).1, _, rfl, ?_, ?_⟩
    · rw [← hrun]
      exact hoffered
    · rw [← hrun]
      exact hnow.shows
  · rintro during rest rfl hended
    have hstays := (hjoined.run during).stays_ended hended rest
    rwa [← run_append] at hstays

/-- A publisher finds a subscription closed, and has not removed it yet. -/
def tillFoundClosed : List BroadcastStep :=
  [.visit (.subscribe "till"), .visit (.close 0), .offer ⟨"soup", 4, -1, ⟨20000, 0, 0⟩⟩]

/-- The name is used again, the publisher removes what it noted, and two events are offered. -/
def tillUsedAgain : List BroadcastStep :=
  [.prune 0, .offer ⟨"soup", 3, -1, ⟨20000, 0, 0⟩⟩, .offer ⟨"soup", 2, -1, ⟨20000, 0, 0⟩⟩]

theorem till_stays :
    let found := (start 1).run tillFoundClosed
    let now := (found.step (.visit (.subscribe "till"))).run tillUsedAgain
    found.found = [["till"]] ∧ (found.feed.subscribe "till").1 = .ok 1 ∧ now.isListed 1 = true ∧
      (now.feed.drain 1).1 = ([⟨"soup", 3, -1, ⟨20000, 0, 0⟩⟩], true) ∧
      now.feed.dropped? "till" = some 1 := by
  intro found now
  have hmade : (found.feed.subscribe "till").1 = .ok 1 := rfl
  have hspared : ∀ x ∈ tillUsedAgain, x.Spares "till" 1 := by
    simp [tillUsedAgain, BroadcastStep.Spares]
  obtain ⟨-, -, hstays, -⟩ := live_subscription_stays tillUsedAgain hmade
  obtain ⟨hlisted, q, rfl, -, hshows⟩ := hstays hspared
  exact ⟨rfl, hmade, hlisted, hshows.drained, hshows.missed rfl⟩

end Broadcast

end OrderLedger
