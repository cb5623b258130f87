import Mathlib.Tactic.SplitIfs
import OrderLedger.Proofs.Store.Work
import OrderLedger.Store.Catalog
import OrderLedger.Store.HandOvers
import OrderLedger.Store.Payments
import OrderLedger.Store.Stock

/-!
Work that does not look at the remembered answers: whatever is remembered, it answers the same,
writes the same rows and leaves the records alone. Only claiming a key, filling a record and
purging are not of this kind.
-/

namespace OrderLedger

namespace Work

variable {ε ε' α β : Type} {work : Work ε α} {s t : Store} {records : List Remembered}

/-- With other records the work has the same result and writes the same rows. -/
def Heedless (work : Work ε α) : Prop :=
  ∀ s records, work.runOn { s with remembered := records } =
    ((work.runOn s).1, { (work.runOn s).2 with remembered := records })

theorem Heedless.remembered (h : Heedless work) (s : Store) :
    (work.runOn s).2.remembered = s.remembered :=
  congrArg (fun run => run.2.remembered) (h s s.remembered)

theorem Heedless.yields {a : α} (h : Heedless work) (hyields : work.Yields s a t)
    (records : List Remembered) :
    work.Yields { s with remembered := records } a { t with remembered := records } := by
  have hrun := h s records
  rwa [show work.runOn s = (.ok a, t) from hyields] at hrun

theorem heedless_pure (a : α) : Heedless (pure a : Work ε α) := fun _ _ => rfl

theorem heedless_fail (e : ε) : Heedless (fail e : Work ε α) := fun _ _ => rfl

theorem heedless_calculate (c : Except Overflow α) : Heedless (calculate c : Work ε α) := by
  intro s records
  cases c <;> rfl

theorem heedless_bind {next : α → Work ε β} (h : Heedless work)
    (hnext : ∀ a, Heedless (next a)) : Heedless (work >>= next) := by
  intro s records
  rw [runOn_bind, runOn_bind, h s records]
  rcases work.runOn s with ⟨r, t⟩
  cases r with
  | error e => rfl
  | ok a => exact hnext a t records

/-- Work that looks at the store first is heedless where it goes on alike from all records. -/
theorem heedless_get_bind {next : Store → Work ε α}
    (hsame : ∀ s records, next { s with remembered := records } = next s)
    (h : ∀ s, Heedless (next s)) : Heedless ((get : Work ε Store) >>= next) := by
  intro s records
  change (next { s with remembered := records }).runOn _ = _
  rw [hsame]
  exact h s s records

theorem heedless_ask {query : Store → Except StorageError α}
    (h : ∀ s records, query { s with remembered := records } = query s) : Heedless (ask query) := by
  refine heedless_get_bind (fun s records => ?_) fun s => ?_
  · rw [h]
  · cases query s with
    | ok a => exact heedless_pure a
    | error e => exact heedless_fail e

theorem heedless_execute {statement : Statement}
    (h : ∀ s records, statement { s with remembered := records } =
      (statement s).map fun t => { t with remembered := records }) :
    Heedless (execute statement) := by
  intro s records
  have hget (u : Store) : (get : Work StorageError Store).runOn u = (.ok u, u) := rfl
  simp only [execute, runOn_bind, hget]
  rw [h]
  cases statement s <;> rfl

theorem heedless_forM {f : α → Work ε PUnit} (h : ∀ a, Heedless (f a)) (xs : List α) :
    Heedless (xs.forM f) := by
  induction xs with
  | nil => exact heedless_pure _
  | cons a rest ih => exact heedless_bind (h a) fun _ => ih

theorem heedless_recast {f : ε → ε'} (h : Heedless work) : Heedless (recast f work) := by
  intro s records
  have hrun (u : Store) : (recast f work).runOn u =
      ((work.runOn u).1.mapError (Fault.map f), (work.runOn u).2) := rfl
  rw [hrun, hrun, h s records]

/-- A test of the store, and then a change of it that leaves the records alone. -/
theorem heedless_change {test : Store → Bool} {change : Store → Store}
    (htest : ∀ s records, test { s with remembered := records } = test s)
    (hchange : ∀ s records, change { s with remembered := records } =
      { change s with remembered := records }) :
    Heedless (do
      let s ← get
      if test s then
        set (change s)
        return true
      else return false : Work ε Bool) := by
  intro s records
  have hrun (u : Store) : (do
      let s ← get
      if test s then
        set (change s)
        return true
      else return false : Work ε Bool).runOn u = (.ok (test u), if test u then change u else u) := by
    change (if test u then (do
        set (change u)
        return true) else return false : Work ε Bool).runOn u = _
    cases test u <;> rfl
  rw [hrun, hrun, htest, hchange]
  cases test s <;> rfl

end Work

namespace Store

open Work

variable {ε : Type}

section Rows

theorem heedless_insertOrder (o : Order) : Heedless (execute (insertOrder o)) := by
  refine heedless_execute fun s records => ?_
  unfold insertOrder hasOrder
  split_ifs <;> rfl

theorem heedless_insertLines (lines : List Line) : Heedless (insertLines lines) := by
  refine heedless_forM (fun l => heedless_execute fun s records => ?_) lines
  unfold insertLine hasLine hasOrder
  cases brokenRule? l with
  | some rule => rfl
  | none =>
      dsimp only
      split_ifs <;> rfl

theorem heedless_insertPayments (payments : List Payment) : Heedless (insertPayments payments) := by
  refine heedless_forM (fun p => heedless_execute fun s records => ?_) payments
  unfold insertPayment hasOrder
  split_ifs <;> rfl

theorem heedless_appendEntries (entries : List StockEntry) : Heedless (appendEntries entries) := by
  refine heedless_forM (fun e => heedless_execute fun s records => ?_) entries
  unfold appendEntry
  split_ifs <;> rfl

theorem heedless_insertProduct (p : Product) : Heedless (execute (insertProduct p)) := by
  refine heedless_execute fun s records => ?_
  unfold insertProduct
  split_ifs <;> rfl

theorem heedless_insertSlotWork (slot : MenuSlot) : Heedless (insertSlotWork slot) := by
  refine heedless_bind (heedless_execute fun s records => ?_) fun _ =>
    heedless_forM (fun productId => heedless_execute fun s records => ?_) _
  · unfold insertSlotRow
    split_ifs <;> rfl
  · unfold insertOption
    split_ifs <;> rfl

theorem heedless_updateActive (id : String) (isActive : Bool) (now : Time.Instant) :
    Heedless (execute (updateActive id isActive now)) := by
  refine heedless_execute fun s records => ?_
  unfold updateActive
  split_ifs <;> rfl

end Rows

theorem heedless_transition (id : String) (source target : Status) (now : Time.Instant) :
    Heedless (transition id source target now : Work ε Bool) :=
  heedless_change (fun _ _ => rfl) fun _ _ => rfl

theorem heedless_deleteIfPending (id : String) : Heedless (deleteIfPending id : Work ε Bool) :=
  heedless_change (fun _ _ => rfl) fun _ _ => rfl

theorem heedless_events (entries : List StockEntry) (now : Time.Instant) :
    Heedless (events entries now) :=
  heedless_bind (heedless_calculate _) fun _ =>
    heedless_bind (heedless_ask fun _ _ => rfl) fun _ => heedless_pure _

theorem heedless_mark (h : HandOver) : Heedless (mark h : Work ε Bool) := by
  intro s records
  have hrun (u : Store) : (mark h : Work ε Bool).runOn u =
      if u.handOvers.any fun other => other.lineId == h.lineId || other.id == h.id then
        (.ok false, u)
      else (.ok true, { u with handOvers := u.handOvers ++ [h] }) := by
    change (if u.handOvers.any fun other => other.lineId == h.lineId || other.id == h.id then _
      else _ : Work ε Bool).runOn u = _
    split_ifs <;> rfl
  rw [hrun, hrun]
  dsimp only
  split_ifs <;> rfl

theorem heedless_markEach (now : Time.Instant) (ids : Nat → String) (n : Nat)
    (lineIds : List String) : Heedless (markEach now ids n lineIds : Work ε Nat) := by
  induction lineIds generalizing n with
  | nil => exact heedless_pure 0
  | cons lineId rest ih =>
      exact heedless_bind (heedless_mark _) fun _ => heedless_bind (ih (n + 1)) fun _ =>
        heedless_pure _

theorem heedless_handOver (now : Time.Instant) (ids : Nat → String) (lineIds : List String) :
    Heedless (handOver now ids lineIds) := by
  refine heedless_get_bind (fun s records => rfl) fun s => ?_
  split
  · exact heedless_fail _
  · exact heedless_markEach now ids 0 _

end Store

end OrderLedger
