import OrderLedger.Proofs.Store.Links
import OrderLedger.Service.Changes
import OrderLedger.Service.Transaction

/-!
The references between the tables of a service, through any sequence of changes to its catalog,
of hand-overs, and of transactions of any steps that are committed or rolled back. A step that
fails leaves what it has written by then, and the steps after it still run; whatever they are
given, every reference points at a row all the while. What a deletion takes is exactly what falls
with the order.
-/

namespace OrderLedger

open Work Calculation

namespace Step

variable {α β : Type} {property : Store → Prop}

/-- Whenever the step gets as far as its work, the work preserves the property. -/
def Preserves (property : Store → Prop) (step : Step α) : Prop :=
  ∀ call work, step.prepare call = .ok work → work.Preserves property

theorem preserves_plain {table : Option Table} {work : Call → Work StorageError α}
    (h : ∀ call, (work call).Preserves property) : (plain table work).Preserves property := by
  rintro call _ ⟨⟩
  exact h call

theorem Preserves.map {step : Step α} (h : step.Preserves property) (f : α → β) :
    (step.map f).Preserves property := by
  intro call work hprepare
  obtain ⟨inner, hinner, rfl⟩ := map_eq_ok.mp hprepare
  exact preserves_bind (h call inner hinner) fun _ => preserves_pure _

end Step

/-- A step of a transaction on orders and what belongs to them. -/
inductive OrderStep where
  | insertOrder (o : Order)
  | insertLines (lines : List Line)
  | insertPayment (p : Payment)
  | transition (id : String) (source target : Status)
  | deleteIfPending (id : String)
  | handOver (lineIds : List String)

namespace OrderStep

def step : OrderStep → Step Reply
  | .insertOrder o => (Step.insertOrder o).map fun _ => .flag true
  | .insertLines lines => (Step.insertLines lines).map fun _ => .flag true
  | .insertPayment p => (Step.insertPayment p).map fun _ => .flag true
  | .transition id source target => (Step.transition id source target).map .flag
  | .deleteIfPending id => (Step.deleteIfPending id).map .flag
  | .handOver lineIds => (Step.handOver lineIds).map .count

theorem preserves_isLinked (choice : OrderStep) : choice.step.Preserves Store.IsLinked := by
  cases choice with
  | insertOrder o => exact (Step.preserves_plain fun _ => Store.preserves_insertOrder o).map _
  | insertLines lines =>
      exact (Step.preserves_plain fun _ => Store.preserves_insertLines lines).map _
  | insertPayment p => exact (Step.preserves_plain fun _ => Store.preserves_insertPayment p).map _
  | transition id source target =>
      exact (Step.preserves_plain fun call =>
        Store.preserves_transition id source target call.now).map _
  | deleteIfPending id =>
      exact (Step.preserves_plain fun _ => Store.preserves_deleteIfPending id).map _
  | handOver lineIds =>
      exact (Step.preserves_plain fun call =>
        Store.preserves_handOver call.now call.ids lineIds).map _

end OrderStep

/-- Something that a service is asked to change. -/
inductive ServiceChange where
  | addProduct (p : Product)
  | addSlot (slot : MenuSlot)
  | handOverLines (call : Call) (lineIds : List String)
  | transact (steps : List (OrderStep × Call)) (commits : Bool)

theorem Shop.commit_preserves {α : Type} {property : Store → Prop} {shop : Shop}
    {work : Work ShopError (Closing (α × List StockEvent))} (h : work.Preserves property)
    (hs : property shop.store) : property (shop.commit work).2.store := by
  have hafter := transact_preserves h hs
  unfold Shop.commit
  rcases hrun : transact work shop.store with ⟨r, t⟩
  rw [hrun] at hafter
  cases r with
  | error e => exact hafter
  | ok pair => exact hafter

theorem Shop.handOverLines_isLinked {shop : Shop} (hs : shop.store.IsLinked) (call : Call)
    (lineIds : List String) : (shop.handOverLines call lineIds).2.store.IsLinked := by
  refine commit_preserves (preserves_bind (preserves_bind (preserves_recast
    (Store.preserves_handOver call.now call.ids lineIds)) fun _ => preserves_pure _) ?_) hs
  rintro (a | a)
  · exact preserves_pure _
  · exact preserves_pure _

namespace Service

/-- The steps of a transaction as they are run. -/
def stepsOf (steps : List (OrderStep × Call)) : List (Step Reply × Call) :=
  steps.map fun (choice, call) => (choice.step, call)

/-- The service after a change. -/
def make (s : Service) : ServiceChange → Service
  | .addProduct p => (s.addProduct p).2
  | .addSlot slot => (s.addSlot slot).2
  | .handOverLines call lineIds => (s.perform call (.handOverLines lineIds)).2
  | .transact steps commits => (s.transact (stepsOf steps) commits).2

/-- What a transaction sees after the steps that it has begun with. -/
def within (s : Service) (begun : List (OrderStep × Call)) : Store :=
  (runSteps s.hasTables (stepsOf begun) s.shop.store).2

section Preserving

variable {property : Store → Prop} {α : Type} {s : Service} {store : Store}

theorem runStep_preserves (hasTables : Bool) {step : Step α} (h : step.Preserves property)
    (call : Call) (hstore : property store) : property (runStep hasTables step call store).2 := by
  unfold runStep
  split
  · exact hstore
  · exact hstore
  · next work hprepare _ => exact h call work hprepare store hstore

/-- Steps preserve a property one after another, whether they succeed or fail. -/
theorem runSteps_preserves (hasTables : Bool) {steps : List (Step α × Call)}
    (h : ∀ step ∈ steps, step.1.Preserves property) (hstore : property store) :
    property (runSteps hasTables steps store).2 := by
  induction steps generalizing store with
  | nil => exact hstore
  | cons first rest ih =>
      obtain ⟨step, call⟩ := first
      have hfirst := runStep_preserves hasTables (h _ List.mem_cons_self) call hstore
      have hrest {t : Store} (ht : property t) : property (runSteps hasTables rest t).2 :=
        ih (fun other hother => h other (List.mem_cons_of_mem _ hother)) ht
      unfold runSteps
      split
      · next t heq =>
          rw [heq] at hfirst
          exact hfirst
      · next e t heq =>
          rw [heq] at hfirst
          exact hrest hfirst
      · next a t heq =>
          rw [heq] at hfirst
          exact hrest hfirst

theorem transact_preserves {steps : List (Step α × Call)}
    (h : ∀ step ∈ steps, step.1.Preserves property) (commits : Bool)
    (hs : property s.shop.store) : property (s.transact steps commits).2.shop.store := by
  have hafter := runSteps_preserves s.hasTables h hs
  unfold transact
  split
  · exact hs
  · split
    · exact hs
    · next answers t heq =>
        rw [heq] at hafter
        cases commits
        · exact hs
        · exact hafter

theorem write_preserves {first : FirstUse}
    {change : Store → Except (Fault StorageError) α × Store}
    (h : property s.shop.store → property (change s.shop.store).2)
    (hs : property s.shop.store) : property (s.write first change).2.shop.store := by
  unfold write
  split
  · exact hs
  · exact h hs

end Preserving

theorem isLinked_stepsOf (steps : List (OrderStep × Call)) :
    ∀ step ∈ stepsOf steps, step.1.Preserves Store.IsLinked := by
  intro step hstep
  obtain ⟨⟨choice, call⟩, -, rfl⟩ := List.mem_map.mp hstep
  exact choice.preserves_isLinked

/-- A change leaves every reference pointing at a row. -/
theorem make_isLinked {s : Service} (hs : s.shop.store.IsLinked) (change : ServiceChange) :
    (s.make change).shop.store.IsLinked := by
  cases change with
  | addProduct p =>
      exact write_preserves (transactAll_preserves (Store.preserves_insertProduct p)) hs
  | addSlot slot =>
      exact write_preserves (transactAll_preserves (Store.preserves_insertSlotWork slot)) hs
  | handOverLines call lineIds =>
      change (s.perform call (.handOverLines lineIds)).2.shop.store.IsLinked
      unfold perform
      split
      · split <;> exact hs
      · exact Shop.handOverLines_isLinked hs call lineIds
  | transact steps commits => exact transact_preserves (isLinked_stepsOf steps) commits hs

/-- A deletion that tells of success has taken a pending order and what falls with it; any other
has taken nothing. -/
theorem runStep_deleteIfPending (hasTables : Bool) (id : String) (call : Call) (store : Store) :
    let deletion := runStep hasTables (OrderStep.deleteIfPending id).step call store
    (deletion.1 = .ok (.flag true) → store.isIn id .pending = true ∧ deletion.2 = store.cascade id) ∧
      (deletion.1 ≠ .ok (.flag true) → deletion.2 = store) := by
  intro deletion
  cases hasTables with
  | false =>
      refine ⟨fun h => ?_, fun _ => rfl⟩
      cases h
  | true =>
      have hyields : (do return .flag (← Store.deleteIfPending id) : Work StorageError Reply).Yields
          store (.flag (store.isDeletable id))
          (if store.isDeletable id then store.withoutOrder id else store) := by
        simp
      have hdeletion : deletion = (.ok (.flag (store.isDeletable id)),
          if store.isDeletable id then store.withoutOrder id else store) := hyields
      rw [hdeletion, ← Store.withoutOrder_eq_cascade]
      cases hdeletable : store.isDeletable id with
      | false => simp
      | true =>
          rw [Store.isDeletable, Bool.and_eq_true] at hdeletable
          simp [hdeletable.1]

/-- Whatever changes a service has been asked to make since it was opened, and whatever steps a
transaction on it has begun with: every reference points at a row and no id is there twice, for
the transaction as for everyone else. If the transaction goes on to delete an order and is told
that it has, a pending order is gone with its payments, the least set of lines that has its own
lines and every line whose parent is in the set, and the hand-overs of those; otherwise nothing
has changed. -/
theorem rows_stay_linked (settings : Settings) (makesTables : Bool)
    (changes : List ServiceChange) (begun : List (OrderStep × Call)) :
    let service := changes.foldl make (opened settings makesTables)
    let store := service.within begun
    service.shop.store.IsLinked ∧ store.IsLinked ∧
    ∀ id call,
      let deletion := runStep service.hasTables (OrderStep.deleteIfPending id).step call store
      (deletion.1 = .ok (.flag true) →
        store.isIn id .pending = true ∧ deletion.2 = store.cascade id) ∧
      (deletion.1 ≠ .ok (.flag true) → deletion.2 = store) := by
  intro service store
  have hservice : service.shop.store.IsLinked :=
    List.foldlRecOn changes make (motive := fun s => s.shop.store.IsLinked)
      (show (opened settings makesTables).shop.store.IsLinked from Store.isLinked_empty)
      fun _ hs change _ => make_isLinked hs change
  exact ⟨hservice, runSteps_preserves _ (isLinked_stepsOf begun) hservice,
    fun id call => runStep_deleteIfPending service.hasTables id call store⟩

/-- A line of the second order stands below a line of the first, and falls with the first order.
One that is its own parent stays. -/
example :
    let noon : Time.Instant := ⟨20000, 43200, 0⟩
    let order (id : String) : Order := ⟨id, none, none, ⟨0⟩, .pending, .pos, none, noon, noon⟩
    let line (id orderId : String) (parentId : Option String) : Line :=
      ⟨id, orderId, .simple, "soup", "Soup", 1, ⟨0⟩, parentId, none, none, noon⟩
    let steps := [.insertOrder (order "first"), .insertOrder (order "second"),
      .insertLines [line "a" "first" none, line "b" "second" (some "a"),
        line "c" "second" (some "b"), line "d" "second" (some "d")],
      .deleteIfPending "first"]
    let store := (opened Settings.standard true).within
      (steps.map fun choice : OrderStep => (choice, Call.on 20000 'a'))
    store.orders.map (·.id) = ["second"] ∧ store.lines.map (·.id) = ["d"] := by
  decide +kernel

end Service

end OrderLedger
