import OrderLedger.Proofs.Shop.StockKeeping
import OrderLedger.Service.Changes

/-!
Errors change nothing. Whatever an operation had written before it failed is undone: the
claimed key is free again, an expired record that was overwritten is back, and nothing is
published. The one fault after a commit is the sum in the report on a payment, which is
no error that a caller gets.
-/

namespace OrderLedger

namespace Shop

variable {α : Type}

theorem Result.reply_eq_error {f : α → Reply} {r : Result α} {fault : Fault ShopError}
    {after : Shop} (h : r.reply f = (.error fault, after)) : r = (.error fault, after) := by
  obtain ⟨answer, shop⟩ := r
  cases answer with
  | ok a => cases h
  | error e =>
      cases h
      rfl

variable {call : Call} {shop after : Shop} {fault : Fault ShopError}

theorem place_eq_error {r : OrderRequest} (h : shop.place call r = (.error fault, after)) :
    after = shop := by
  unfold place at h
  split at h
  · cases h
    rfl
  · cases h
  · split at h
    · cases h
      rfl
    · exact commit_eq_error h

/-- Only the sum in the report may fail after the commit. -/
theorem report_eq_error {o : Outcome PaymentReceipt} (h : report o = .error fault) :
    ∃ cause, fault = .overflow cause := by
  unfold report at h
  split at h
  · cases h
  · split at h
    · cases h
    · cases h
      exact ⟨_, rfl⟩

theorem pay_eq_error {orderId : String} {tenders : List Tender} {key : Option String}
    (h : shop.pay call orderId tenders key = (.error fault, after)) :
    after = shop ∨ ∃ cause, fault = .overflow cause := by
  unfold pay at h
  split at h
  · cases h
    exact Or.inl rfl
  · cases h
  · split at h
    · next outcome paid hcommit =>
        have hreport : report outcome = .error fault := congrArg Prod.fst h
        exact Or.inr (report_eq_error hreport)
    · next e paid hcommit =>
        rw [commit_eq_error hcommit] at h
        cases h
        exact Or.inl rfl

/-- An operation that fails leaves the shop as it was, unless it is a payment that was
recorded and whose report overflows. -/
theorem perform_eq_error {operation : Operation}
    (h : shop.perform call operation = (.error fault, after)) :
    after = shop ∨ ∃ cause, fault = .overflow cause := by
  cases operation with
  | place r => exact Or.inl (place_eq_error (Result.reply_eq_error h))
  | pay orderId tenders key => exact pay_eq_error (Result.reply_eq_error h)
  | cancel orderId => exact Or.inl (commit_eq_error (Result.reply_eq_error h))
  | refund orderId => exact Or.inl (commit_eq_error (Result.reply_eq_error h))
  | discard orderId => exact Or.inl (commit_eq_error (Result.reply_eq_error h))
  | reap attemptId keptId => exact Or.inl (commit_eq_error (Result.reply_eq_error h))
  | handOverLines lineIds => exact Or.inl (commit_eq_error (Result.reply_eq_error h))
  | handOverOrder orderId => exact Or.inl (commit_eq_error (Result.reply_eq_error h))
  | append entries => exact Or.inl (append_eq_error (Result.reply_eq_error h))
  | enter productId delta reason actor => exact Or.inl (enter_eq_error (Result.reply_eq_error h))
  | purge =>
      have hpurge := Result.reply_eq_error h
      cases hpurge

end Shop

/-- Work that is committed unless it fails leaves nothing when it fails. -/
theorem transactAll_eq_error {ε α : Type} {work : Work ε α} {s t : Store} {e : Fault ε}
    (h : transactAll work s = (.error e, t)) : t = s := transact_eq_error h

namespace Service

variable {call : Call} {s after : Service}

theorem perform_eq_error {operation : Operation} {e : ShopError}
    (h : s.perform call operation = (.error (.error e), after)) : after = s := by
  unfold perform at h
  split at h
  · split at h <;> cases h <;> rfl
  · rcases hperform : s.shop.perform call operation with ⟨answer, shop⟩
    rw [hperform] at h
    cases h
    rcases Shop.perform_eq_error hperform with rfl | ⟨cause, hcause⟩
    · rfl
    · cases hcause

theorem write_eq_error {α : Type} {first : FirstUse}
    {change : Store → Except (Fault StorageError) α × Store} {f : Fault StorageError}
    (hchange : ∀ t, change s.shop.store = (.error f, t) → t = s.shop.store)
    (h : s.write first change = (.error f, after)) : after = s := by
  unfold write at h
  split at h
  · cases h
    rfl
  · rcases hresult : change s.shop.store with ⟨answer, store⟩
    rw [hresult] at h
    cases h
    rw [hchange store hresult]

/-- Neither an operation nor a change of the catalog, the ledger or the marks that returns
an error has changed a table or offered an event. -/
theorem error_changes_nothing (call : Call) (s : Service) :
    (∀ operation e, (s.perform call operation).1 = .error (.error e) →
      (s.perform call operation).2 = s) ∧
    (∀ entries f, (s.enterAll entries).1 = .error f → (s.enterAll entries).2 = s) ∧
    (∀ product f, (s.addProduct product).1 = .error f → (s.addProduct product).2 = s) ∧
    (∀ slot f, (s.addSlot slot).1 = .error f → (s.addSlot slot).2 = s) ∧
    (∀ id isActive f, (s.setActive call id isActive).1 = .error f →
      (s.setActive call id isActive).2 = s) ∧
    (∀ first lineIds f,
      (s.write first (transactAll (Store.handOver call.now call.ids lineIds))).1 = .error f →
      (s.write first (transactAll (Store.handOver call.now call.ids lineIds))).2 = s) := by
  refine ⟨?_, ?_, ?_, ?_, ?_, ?_⟩
  · intro operation e h
    exact perform_eq_error (Prod.ext h rfl)
  · intro entries f h
    exact write_eq_error (fun _ => transactAll_eq_error) (Prod.ext h rfl)
  · intro product f h
    exact write_eq_error (fun _ => transactAll_eq_error) (Prod.ext h rfl)
  · intro slot f h
    exact write_eq_error (fun _ => transactAll_eq_error) (Prod.ext h rfl)
  · intro id isActive f h
    exact write_eq_error (fun _ => transactAll_eq_error) (Prod.ext h rfl)
  · intro first lineIds f h
    exact write_eq_error (fun _ => transactAll_eq_error) (Prod.ext h rfl)

/-- A service that remembers an answer which has long expired. -/
def withStaleAnswer : Service :=
  let opened := Service.opened Settings.standard true
  { opened with
    shop := { opened.shop with
      store := { Store.empty with
        remembered := [⟨Remembered.payingScope, "till-7", [], ⟨0, 0, 0⟩, ⟨1, 0, 0⟩⟩] } } }

/-- A call that writes over the answer, and then finds no order to pay. -/
theorem stale_answer_is_back :
    let call : Call := ⟨⟨20000, 0, 0⟩, ⟨20000, 0, 0⟩, ⟨20000, 0, 0⟩, fun _ => "id"⟩
    let result := withStaleAnswer.perform call (.pay "gone" [⟨.cash, ⟨500⟩⟩] (some "till-7"))
    result.1 = .error (.error (.notFound "Order" "gone")) ∧ result.2 = withStaleAnswer := by
  intro call result
  have herror : result.1 = .error (.error (.notFound "Order" "gone")) := by decide +kernel
  exact ⟨herror, (error_changes_nothing call withStaleAnswer).1 _ _ herror⟩

end Service

end OrderLedger
