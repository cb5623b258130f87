import OrderLedger.Proofs.Store.Work

/-!
What work leaves in place whatever comes of it. Work that fails has already written what came
before; in a transaction of several steps that stays, so a property of the store has to survive
work that fails as well as work that succeeds.
-/

namespace OrderLedger

variable {ε ε' α β : Type} {property : Store → Prop}

namespace Work

/-- Where the property holds before the work, it holds after it. -/
def Preserves (property : Store → Prop) (work : Work ε α) : Prop :=
  ∀ s, property s → property (work.runOn s).2

theorem preserves_pure (a : α) : Preserves property (pure a : Work ε α) := fun _ h => h

theorem preserves_bind {work : Work ε α} {next : α → Work ε β} (h : Preserves property work)
    (hnext : ∀ a, Preserves property (next a)) : Preserves property (work >>= next) := by
  intro s hs
  have hafter := h s hs
  rw [runOn_bind]
  rcases hrun : work.runOn s with ⟨r, t⟩
  rw [hrun] at hafter
  cases r with
  | error e => exact hafter
  | ok a => exact hnext a t hafter

/-- Work that looks at the store first goes on from the store that it has seen. -/
theorem preserves_get_bind {next : Store → Work ε α}
    (h : ∀ s, property s → property ((next s).runOn s).2) :
    Preserves property ((get : Work ε Store) >>= next) := h

/-- Work that always yields preserves what it yields. -/
theorem preserves_of_yields {work : Work ε α}
    (h : ∀ s, property s → ∃ a t, work.Yields s a t ∧ property t) : Preserves property work := by
  intro s hs
  obtain ⟨a, t, hyields, ht⟩ := h s hs
  rw [show work.runOn s = (.ok a, t) from hyields]
  exact ht

theorem preserves_execute {statement : Statement}
    (h : ∀ s t, statement s = .ok t → property s → property t) :
    Preserves property (execute statement) := by
  refine preserves_get_bind fun s hs => ?_
  cases hstatement : statement s with
  | error e => exact hs
  | ok t => exact h s t hstatement hs

theorem preserves_forM {f : α → Work ε PUnit} (h : ∀ a, Preserves property (f a))
    (xs : List α) : Preserves property (xs.forM f) := by
  induction xs with
  | nil => exact preserves_pure _
  | cons a rest ih => exact preserves_bind (h a) fun _ => ih

theorem preserves_recast {f : ε → ε'} {work : Work ε α} (h : Preserves property work) :
    Preserves property (recast f work) := h

end Work

section Transactions

variable {s : Store}

/-- A transaction leaves what its work has left, or what there was before. -/
theorem transact_preserves {work : Work ε (Closing α)} (h : work.Preserves property)
    (hs : property s) : property (transact work s).2 := by
  have hafter := h s hs
  unfold transact
  rcases hrun : work.runOn s with ⟨r, t⟩
  rw [hrun] at hafter
  cases r with
  | error e => exact hs
  | ok closing =>
      cases closing with
      | commit a => exact hafter
      | rollback a => exact hs

theorem transactAll_preserves {work : Work ε α} (h : work.Preserves property)
    (hs : property s) : property (transactAll work s).2 :=
  transact_preserves (Work.preserves_bind h fun _ => Work.preserves_pure _) hs

end Transactions

end OrderLedger
