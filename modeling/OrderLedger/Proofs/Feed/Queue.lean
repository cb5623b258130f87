import OrderLedger.Feed

/-!
A bounded queue of events for one subscription alone. It is offered the events that are
published after the subscription, takes in those that find room and counts the others. Once it
is not open any more it takes in nothing, and what it holds can still be read.
-/

namespace OrderLedger

/-- What may happen to the queue of one subscription. -/
inductive QueueStep where
  | offer (e : StockEvent)
  /-- The subscriber leaves, or another one comes under the same name. -/
  | leave
  /-- A publisher removes the subscription if its receiver is gone. -/
  | prune
  | take
  | drain
  | close
  | drop

structure Queue where
  /-- The events that were offered while the queue was open. -/
  offered : List StockEvent
  /-- The events that were read. -/
  delivered : List StockEvent
  /-- The events that can be read, oldest first. -/
  buffered : List StockEvent
  /-- How many events found no room. -/
  dropped : Nat
  isRegistered : Bool
  receiver : Receiver
  deriving DecidableEq, Repr

namespace Queue

def fresh : Queue := ⟨[], [], [], 0, true, .listening⟩

/-- Whether the queue takes in events. -/
def isOpen (q : Queue) : Bool := q.isRegistered && q.receiver == .listening

def offer (capacity : Nat) (q : Queue) (e : StockEvent) : Queue :=
  if !q.isOpen then q
  else if q.buffered.length < capacity then
    { q with offered := q.offered ++ [e], buffered := q.buffered ++ [e] }
  else { q with offered := q.offered ++ [e], dropped := q.dropped + 1 }

def leave (q : Queue) : Queue := { q with isRegistered := false }

def take (q : Queue) : Queue :=
  match q.buffered with
  | [] => q
  | e :: rest => { q with delivered := q.delivered ++ [e], buffered := rest }

def step (capacity : Nat) (q : Queue) : QueueStep → Queue
  | .offer e => q.offer capacity e
  | .leave => q.leave
  | .prune => if q.receiver = .listening then q else q.leave
  | .take => q.take
  | .drain => { q with delivered := q.delivered ++ q.buffered, buffered := [] }
  | .close => if q.receiver = .listening then { q with receiver := .closed } else q
  | .drop => { q with receiver := .dropped, buffered := [] }

def run (capacity : Nat) (q : Queue) (steps : List QueueStep) : Queue :=
  steps.foldl (step capacity) q

/-- What a reader finds in the queue. -/
def reading (q : Queue) : Reading :=
  match q.buffered with
  | e :: _ => .event e
  | [] => if q.isOpen then .empty else .ended

variable {capacity : Nat} {q : Queue} {steps : List QueueStep}

theorem run_append (q : Queue) (steps more : List QueueStep) :
    q.run capacity (steps ++ more) = (q.run capacity steps).run capacity more :=
  List.foldl_append

/-- What every step keeps holds after all of them. -/
theorem run_induction (property : Queue → Prop) (h : property q)
    (hstep : ∀ q step, property q → property (q.step capacity step)) :
    property (q.run capacity steps) := by
  induction steps generalizing q with
  | nil => exact h
  | cons step rest ih => exact ih (hstep q step h)

theorem isOpen_eq_true : q.isOpen = true ↔ q.isRegistered = true ∧ q.receiver = .listening := by
  rw [isOpen, Bool.and_eq_true, beq_iff_eq]

theorem isOpen_eq_false : q.isOpen = false ↔ q.isRegistered = false ∨ q.receiver ≠ .listening := by
  rw [isOpen, Bool.and_eq_false_iff, beq_eq_false_iff_ne]

theorem offer_of_shut (h : q.isOpen = false) (e : StockEvent) : q.offer capacity e = q := by
  rw [offer, h]
  rfl

theorem offer_of_room (hopen : q.isOpen = true) (hroom : q.buffered.length < capacity)
    (e : StockEvent) : q.offer capacity e =
      { q with offered := q.offered ++ [e], buffered := q.buffered ++ [e] } := by
  rw [offer, hopen, if_pos hroom]
  rfl

theorem offer_of_full (hopen : q.isOpen = true) (hfull : ¬ q.buffered.length < capacity)
    (e : StockEvent) : q.offer capacity e =
      { q with offered := q.offered ++ [e], dropped := q.dropped + 1 } := by
  rw [offer, hopen, if_neg hfull]
  rfl

@[simp]
theorem isRegistered_offer (e : StockEvent) :
    (q.offer capacity e).isRegistered = q.isRegistered := by
  unfold offer
  split
  · rfl
  · split <;> rfl

@[simp]
theorem receiver_offer (e : StockEvent) : (q.offer capacity e).receiver = q.receiver := by
  unfold offer
  split
  · rfl
  · split <;> rfl

@[simp]
theorem isOpen_offer (e : StockEvent) : (q.offer capacity e).isOpen = q.isOpen := by
  rw [isOpen, isRegistered_offer, receiver_offer, isOpen]

theorem take_eq (q : Queue) : q.take =
    { q with delivered := q.delivered ++ q.buffered.take 1, buffered := q.buffered.tail } := by
  obtain ⟨offered, delivered, buffered, dropped, isRegistered, receiver⟩ := q
  cases buffered with
  | nil => simp [take]
  | cons e rest => rfl

theorem offered_offer (hopen : q.isOpen = true) (e : StockEvent) :
    (q.offer capacity e).offered = q.offered ++ [e] := by
  by_cases hroom : q.buffered.length < capacity
  · rw [offer_of_room hopen hroom]
  · rw [offer_of_full hopen hroom]

theorem isRegistered_step {step : QueueStep} (hleave : step ≠ .leave) (hprune : step ≠ .prune)
    (q : Queue) : (q.step capacity step).isRegistered = q.isRegistered := by
  cases step with
  | offer e => exact isRegistered_offer e
  | leave => exact absurd rfl hleave
  | prune => exact absurd rfl hprune
  | take => rw [Queue.step, take_eq]
  | close =>
      rw [Queue.step]
      split <;> rfl
  | drain | drop => rfl

theorem receiver_step {step : QueueStep} (hclose : step ≠ .close) (hdrop : step ≠ .drop)
    (q : Queue) : (q.step capacity step).receiver = q.receiver := by
  cases step with
  | offer e => exact receiver_offer e
  | close => exact absurd rfl hclose
  | drop => exact absurd rfl hdrop
  | take => rw [Queue.step, take_eq]
  | prune =>
      rw [Queue.step]
      split <;> rfl
  | leave | drain => rfl

theorem receiver_run (hclose : .close ∉ steps) (hdrop : .drop ∉ steps) (q : Queue) :
    (q.run capacity steps).receiver = q.receiver := by
  induction steps generalizing q with
  | nil => rfl
  | cons step rest ih =>
      obtain ⟨hstep, hclose⟩ := List.ne_and_not_mem_of_not_mem_cons hclose
      obtain ⟨hstep', hdrop⟩ := List.ne_and_not_mem_of_not_mem_cons hdrop
      exact (ih hclose hdrop _).trans (receiver_step hstep.symm hstep'.symm q)

/-- Leaving twice is leaving once. -/
theorem leave_of_left (h : q.isRegistered = false) : q.leave = q := by
  rw [leave, ← h]

theorem prune_of_listening (capacity : Nat) (h : q.isRegistered = true → q.receiver = .listening) :
    q.step capacity .prune = q := by
  rw [step]
  split
  · rfl
  · next hsilent => exact leave_of_left (Bool.not_eq_true _ ▸ mt h hsilent)

theorem prune_of_silent (capacity : Nat) (h : q.isRegistered = true → q.receiver ≠ .listening) :
    q.step capacity .prune = q.leave := by
  rw [step]
  split
  · next hlistening =>
      exact (leave_of_left (Bool.eq_false_iff.mpr fun hin => h hin hlistening)).symm
  · rfl

/-- Pruning twice is pruning once. -/
theorem prune_prune (q : Queue) :
    (q.step capacity .prune).step capacity .prune = q.step capacity .prune := by
  refine prune_of_listening capacity ?_
  rw [step]
  split
  · next hlistening => exact fun _ => hlistening
  · nofun

/-! ## Reading -/

/-- The events that a step reads. -/
def reads (q : Queue) : QueueStep → List StockEvent
  | .take => q.buffered.take 1
  | .drain => q.buffered
  | .offer _ | .leave | .prune | .close | .drop => []

theorem delivered_step (capacity : Nat) (q : Queue) (step : QueueStep) :
    (q.step capacity step).delivered = q.delivered ++ q.reads step := by
  cases step with
  | offer e =>
      rw [reads, List.append_nil, step, offer]
      split
      · rfl
      · split <;> rfl
  | take => rw [reads, step, take_eq]
  | drain => rfl
  | prune | close =>
      rw [reads, List.append_nil, step]
      split <;> rfl
  | leave | drop => exact (List.append_nil _).symm

theorem delivered_run (hreads : ∀ step ∈ steps, ∀ q : Queue, q.reads step = []) (q : Queue) :
    (q.run capacity steps).delivered = q.delivered := by
  induction steps generalizing q with
  | nil => rfl
  | cons step rest ih =>
      obtain ⟨hfirst, hrest⟩ := List.forall_mem_cons.mp hreads
      refine (ih hrest (q.step capacity step)).trans ?_
      rw [delivered_step, hfirst, List.append_nil]

/-! ## Order and number of the events -/

/-- The events of a queue are in order and none of them is lost without being counted, unless
the receiver is dropped with what it holds. -/
structure Sound (capacity : Nat) (q : Queue) : Prop where
  ordered : (q.delivered ++ q.buffered).Sublist q.offered
  bounded : q.buffered.length ≤ capacity
  counted : q.receiver ≠ .dropped →
    q.delivered.length + q.buffered.length + q.dropped = q.offered.length

theorem Sound.offer (h : q.Sound capacity) (e : StockEvent) :
    (q.offer capacity e).Sound capacity := by
  unfold Queue.offer
  split
  · exact h
  · next hopen =>
      split
      · next hroom =>
          refine ⟨?_, ?_, fun hreceiver => ?_⟩
          · rw [← List.append_assoc]
            exact h.ordered.append (List.Sublist.refl [e])
          · rw [List.length_append]
            exact hroom
          · have hcounted := h.counted hreceiver
            simp only [List.length_append, List.length_singleton]
            omega
      · refine ⟨h.ordered.trans (List.sublist_append_left _ _), h.bounded, fun hreceiver => ?_⟩
        have hcounted := h.counted hreceiver
        simp only [List.length_append, List.length_singleton]
        omega

theorem Sound.take (h : q.Sound capacity) : q.take.Sound capacity := by
  unfold Queue.take
  split
  · exact h
  · next e rest hbuffered =>
      obtain ⟨hordered, hbounded, hcounted⟩ := h
      rw [hbuffered] at hordered hbounded hcounted
      refine ⟨?_, Nat.le_of_succ_le hbounded, fun hreceiver => ?_⟩
      · rwa [List.append_assoc]
      · have hsum := hcounted hreceiver
        simp only [List.length_append, List.length_cons, List.length_nil] at hsum ⊢
        omega

theorem Sound.step (h : q.Sound capacity) (step : QueueStep) :
    (q.step capacity step).Sound capacity := by
  cases step with
  | offer e => exact h.offer e
  | leave => exact ⟨h.ordered, h.bounded, h.counted⟩
  | prune =>
      simp only [Queue.step]
      split
      · exact h
      · exact ⟨h.ordered, h.bounded, h.counted⟩
  | take => exact h.take
  | drain =>
      refine ⟨?_, Nat.zero_le _, fun hreceiver => ?_⟩
      · rw [Queue.step, List.append_nil]
        exact h.ordered
      · have hcounted := h.counted hreceiver
        simp only [Queue.step, List.length_append, List.length_nil]
        omega
  | close =>
      simp only [Queue.step]
      split
      · next hlistening =>
          refine ⟨h.ordered, h.bounded, fun _ => h.counted ?_⟩
          rw [hlistening]
          decide
      · exact h
  | drop =>
      refine ⟨?_, Nat.zero_le _, fun hreceiver => absurd rfl hreceiver⟩
      rw [Queue.step, List.append_nil]
      exact (List.sublist_append_left _ _).trans h.ordered

theorem sound_run (steps : List QueueStep) : (fresh.run capacity steps).Sound capacity :=
  run_induction (Sound capacity) ⟨List.Sublist.refl [], Nat.zero_le _, fun _ => rfl⟩
    fun _ step h => h.step step

/-! ## The end of a queue -/

/-- A queue that was shut has taken in nothing since, and holds what is left to be read. -/
structure Settled (q later : Queue) : Prop where
  shut : later.isOpen = false
  offered : later.offered = q.offered
  dropped : later.dropped = q.dropped
  kept : later.receiver ≠ .dropped →
    later.delivered ++ later.buffered = q.delivered ++ q.buffered
  spent : q.buffered = [] → later.buffered = []

variable {later : Queue}

theorem Settled.step (h : q.Settled later) (step : QueueStep) :
    q.Settled (later.step capacity step) := by
  obtain ⟨hshut, hoffered, hdropped, hkept, hspent⟩ := h
  have hleft : later.leave.isOpen = false := isOpen_eq_false.mpr (Or.inl rfl)
  cases step with
  | offer e =>
      rw [Queue.step, offer_of_shut hshut]
      exact ⟨hshut, hoffered, hdropped, hkept, hspent⟩
  | leave => exact ⟨hleft, hoffered, hdropped, hkept, hspent⟩
  | prune =>
      simp only [Queue.step]
      split
      · exact ⟨hshut, hoffered, hdropped, hkept, hspent⟩
      · exact ⟨hleft, hoffered, hdropped, hkept, hspent⟩
  | take =>
      simp only [Queue.step, take]
      split
      · exact ⟨hshut, hoffered, hdropped, hkept, hspent⟩
      · next e rest hbuffered =>
          rw [hbuffered] at hkept hspent
          refine ⟨hshut, hoffered, hdropped, fun hreceiver => ?_, fun hempty => ?_⟩
          · rw [← hkept hreceiver, List.append_assoc]
            rfl
          · cases hspent hempty
  | drain =>
      refine ⟨hshut, hoffered, hdropped, fun hreceiver => ?_, fun _ => rfl⟩
      rw [← hkept hreceiver]
      exact List.append_nil _
  | close =>
      simp only [Queue.step]
      split
      · next hlistening =>
          refine ⟨isOpen_eq_false.mpr (Or.inr nofun), hoffered, hdropped, fun _ => hkept ?_, hspent⟩
          rw [hlistening]
          decide
      · exact ⟨hshut, hoffered, hdropped, hkept, hspent⟩
  | drop =>
      exact ⟨isOpen_eq_false.mpr (Or.inr nofun), hoffered, hdropped,
        fun hreceiver => absurd rfl hreceiver, fun _ => rfl⟩

theorem settled_run (h : q.isOpen = false) (steps : List QueueStep) :
    q.Settled (q.run capacity steps) :=
  run_induction (Settled q) ⟨h, rfl, rfl, fun _ => rfl, id⟩ fun _ step h => h.step step

/-- A subscription is removed by leaving and by pruning alone. -/
theorem leave_or_prune_mem (hin : q.isRegistered = true)
    (hout : (q.run capacity steps).isRegistered = false) : .leave ∈ steps ∨ .prune ∈ steps := by
  induction steps generalizing q with
  | nil => exact absurd hin (Bool.eq_false_iff.mp hout)
  | cons step rest ih =>
      by_cases hleave : step = .leave
      · exact Or.inl (hleave ▸ List.mem_cons_self)
      · by_cases hprune : step = .prune
        · exact Or.inr (hprune ▸ List.mem_cons_self)
        · have hstep : (q.step capacity step).isRegistered = true :=
            (isRegistered_step hleave hprune q).trans hin
          exact (ih hstep hout).imp (List.mem_cons_of_mem _) (List.mem_cons_of_mem _)

/-- A subscription that was removed stays removed. -/
theorem isRegistered_run (h : q.isRegistered = false) (steps : List QueueStep) :
    (q.run capacity steps).isRegistered = false := by
  refine run_induction (fun q => q.isRegistered = false) h fun q step h => ?_
  by_cases hleave : step = .leave
  · rw [hleave]
    rfl
  · by_cases hprune : step = .prune
    · rw [hprune, prune_of_listening capacity fun hin => absurd hin (Bool.eq_false_iff.mp h)]
      exact h
    · rw [isRegistered_step hleave hprune]
      exact h

end Queue

end OrderLedger
