import OrderLedger.Proofs.Links
import OrderLedger.Proofs.Order.Details
import OrderLedger.Proofs.Word

/-!
What was paid for an order is added up in two places: by the store in the order of the rows, and
for the details of the order by the time of payment. No row that is let in has a negative amount,
however it comes in, so a running sum never falls; both sums then tell the exact total where it
fits in 64 bits, and both break off where it does not.
-/

namespace OrderLedger

open Work Calculation

namespace Store

variable {ε : Type} {s : Store} {id : String}

/-- No payment has a negative amount. -/
def PaymentsNonneg (s : Store) : Prop := ∀ p ∈ s.payments, 0 ≤ p.amount.cents

/-- What was paid for an order is told if the exact sum fits. -/
theorem totalPaid_of_nonneg (hs : s.PaymentsNonneg) (id : String) :
    s.totalPaid id =
      if ((s.rowsOf id).map (·.amount.cents)).sum ≤ Word.greatest then
        .ok ((s.rowsOf id).map (·.amount.cents)).sum
      else .error .sumOverflow := by
  have hamounts : ∀ n ∈ (s.rowsOf id).map (·.amount.cents), 0 ≤ n := by
    intro n hn
    obtain ⟨p, hp, rfl⟩ := List.mem_map.mp hn
    exact hs p (List.mem_of_mem_filter hp)
  have hsum := Word.sum?_of_nonneg hamounts
  have hrows : (s.payments.filter fun p => p.orderId == id) = s.rowsOf id := rfl
  rw [totalPaid, hrows]
  by_cases hfits : ((s.rowsOf id).map (·.amount.cents)).sum ≤ Word.greatest
  · rw [if_pos hfits] at hsum ⊢
    rw [hsum]
  · rw [if_neg hfits] at hsum ⊢
    rw [hsum]

theorem preserves_nonneg_insertOrder (o : Order) :
    (Work.execute (insertOrder o)).Preserves PaymentsNonneg := by
  refine preserves_execute fun s t h hs => ?_
  obtain ⟨-, -, rfl⟩ := insertOrder_eq_ok.mp h
  exact hs

theorem preserves_nonneg_insertLines (lines : List Line) :
    (insertLines lines).Preserves PaymentsNonneg := by
  refine preserves_forM (fun l => preserves_execute fun s t h hs => ?_) lines
  obtain ⟨-, rfl⟩ := insertLine_eq_ok.mp h
  exact hs

/-- A row with a negative amount is refused. -/
theorem preserves_nonneg_insertPayment (p : Payment) :
    (Work.execute (insertPayment p)).Preserves PaymentsNonneg := by
  refine preserves_execute fun s t h hs => ?_
  obtain ⟨hamount, -, -, rfl⟩ := insertPayment_eq_ok.mp h
  intro q hq
  rcases List.mem_append.mp hq with hq | hq
  · exact hs q hq
  · rwa [List.mem_singleton.mp hq]

theorem preserves_nonneg_transition (id : String) (source target : Status) (now : Time.Instant) :
    (transition id source target now : Work ε Bool).Preserves PaymentsNonneg := by
  refine preserves_of_yields fun s hs => ⟨_, _, yields_transition.mpr ⟨rfl, rfl⟩, ?_⟩
  split
  · exact hs
  · exact hs

theorem preserves_nonneg_deleteIfPending (id : String) :
    (deleteIfPending id : Work ε Bool).Preserves PaymentsNonneg := by
  refine preserves_of_yields fun s hs => ⟨_, _, yields_deleteIfPending.mpr ⟨rfl, rfl⟩, ?_⟩
  split
  · rw [withoutOrder_eq_cascade]
    exact fun p hp => hs p (List.mem_of_mem_filter hp)
  · exact hs

theorem preserves_nonneg_handOver (now : Time.Instant) (ids : Nat → String)
    (lineIds : List String) : (handOver now ids lineIds).Preserves PaymentsNonneg := by
  have heach (n : Nat) (lineIds : List String) :
      (markEach now ids n lineIds : Work StorageError Nat).Preserves PaymentsNonneg := by
    induction lineIds generalizing n with
    | nil => exact preserves_pure _
    | cons lineId rest ih =>
        refine preserves_bind (preserves_get_bind fun s hs => ?_) fun _ =>
          preserves_bind (ih (n + 1)) fun _ => preserves_pure _
        split <;> exact hs
  refine preserves_get_bind fun s hs => ?_
  split
  · exact hs
  · exact heach 0 _ s hs

end Store

theorem OrderStep.preserves_nonneg (choice : OrderStep) :
    choice.step.Preserves Store.PaymentsNonneg := by
  cases choice with
  | insertOrder o =>
      exact (Step.preserves_plain fun _ => Store.preserves_nonneg_insertOrder o).map _
  | insertLines lines =>
      exact (Step.preserves_plain fun _ => Store.preserves_nonneg_insertLines lines).map _
  | insertPayment p =>
      exact (Step.preserves_plain fun _ => Store.preserves_nonneg_insertPayment p).map _
  | transition id source target =>
      exact (Step.preserves_plain fun call =>
        Store.preserves_nonneg_transition id source target call.now).map _
  | deleteIfPending id =>
      exact (Step.preserves_plain fun _ => Store.preserves_nonneg_deleteIfPending id).map _
  | handOver lineIds =>
      exact (Step.preserves_plain fun call =>
        Store.preserves_nonneg_handOver call.now call.ids lineIds).map _

/-- Something that happens to a service: an operation of its shop, or a change that a caller puts
together. -/
inductive ServiceEvent where
  | operate (call : Call) (operation : Operation)
  | change (change : ServiceChange)

namespace Service

def meet (s : Service) : ServiceEvent → Service
  | .operate call operation => (s.perform call operation).2
  | .change change => s.make change

theorem perform_nonneg {s : Service} (hs : s.shop.store.PaymentsNonneg) (call : Call)
    (operation : Operation) : (s.perform call operation).2.shop.store.PaymentsNonneg := by
  unfold perform
  split
  · split <;> exact hs
  · exact (Shop.perform_effect call operation s.shop).2.payments_nonneg hs

theorem make_nonneg {s : Service} (hs : s.shop.store.PaymentsNonneg) (change : ServiceChange) :
    (s.make change).shop.store.PaymentsNonneg := by
  cases change with
  | addProduct p =>
      refine write_preserves (transactAll_preserves (preserves_execute fun s t h hs => ?_)) hs
      obtain ⟨-, -, rfl⟩ := Store.insertProduct_eq_ok.mp h
      exact hs
  | addSlot slot =>
      refine write_preserves (transactAll_preserves (preserves_bind (preserves_execute
        fun s t h hs => ?_) fun _ => preserves_forM (fun productId => preserves_execute
          fun s t h hs => ?_) _)) hs
      · obtain ⟨-, -, rfl⟩ := Store.insertSlotRow_eq_ok.mp h
        exact hs
      · obtain ⟨-, -, -, rfl⟩ := Store.insertOption_eq_ok.mp h
        exact hs
  | handOverLines call lineIds => exact perform_nonneg hs call (.handOverLines lineIds)
  | transact steps commits =>
      refine transact_preserves (fun step hstep => ?_) commits hs
      obtain ⟨⟨choice, call⟩, -, rfl⟩ := List.mem_map.mp hstep
      exact choice.preserves_nonneg

theorem meet_nonneg {s : Service} (hs : s.shop.store.PaymentsNonneg) (event : ServiceEvent) :
    (s.meet event).shop.store.PaymentsNonneg := by
  cases event with
  | operate call operation => exact perform_nonneg hs call operation
  | change change => exact make_nonneg hs change

/-- Whatever has happened to a service since it was opened, the two totals of a stored order
agree. Both are the exact sum of its payments where that fits in 64 bits, and where it does not,
the store reports an overflow and the details break off. -/
theorem payment_totals_agree (settings : Settings) (makesTables : Bool)
    (events : List ServiceEvent) :
    let store := (events.foldl meet (opened settings makesTables)).shop.store
    ∀ id o, store.order? id = some o →
      let exact := ((store.rowsOf id).map (·.amount.cents)).sum
      if Word.Fits exact then
        store.totalPaid id = .ok exact ∧ ∃ shown, Shop.details store id = .ok shown ∧
          shown.payments = store.paymentsOf id ∧ shown.totalPaid = ⟨exact⟩
      else
        store.totalPaid id = .error .sumOverflow ∧
          Shop.details store id = .error (.overflow .add) := by
  intro store id o hfound exact
  have hnonneg : store.PaymentsNonneg :=
    List.foldlRecOn events meet (motive := fun s => s.shop.store.PaymentsNonneg)
      (show (opened settings makesTables).shop.store.PaymentsNonneg from List.forall_mem_nil _)
      fun _ hs event _ => meet_nonneg hs event
  have htotal := Store.totalPaid_of_nonneg hnonneg id
  have hdetails := Shop.details_of_nonneg hfound hnonneg
  have hsum : 0 ≤ exact := by
    apply List.sum_nonneg
    intro n hn
    obtain ⟨p, hp, rfl⟩ := List.mem_map.mp hn
    exact hnonneg p (List.mem_of_mem_filter hp)
  have hfits : Word.Fits exact ↔ exact ≤ Word.greatest := by
    unfold Word.Fits Word.least
    omega
  simp only [hfits]
  split
  · next hmost => exact ⟨htotal.trans (if_pos hmost), _, hdetails.trans (if_pos hmost), rfl, rfl⟩
  · next hover => exact ⟨htotal.trans (if_neg hover), hdetails.trans (if_neg hover)⟩

/-- One order was paid in two parts, the later one entered first. The payments of the other are
one cent too much to be added up, and a further row was refused. -/
def splitBills : List ServiceEvent :=
  let order (id : String) : Order :=
    ⟨id, none, none, ⟨0⟩, .pending, .pos, none, ⟨20000, 0, 0⟩, ⟨20000, 0, 0⟩⟩
  let payment (id orderId : String) (cents : Int) (day : Int) : Payment :=
    ⟨id, orderId, .cash, ⟨cents⟩, none, ⟨day, 0, 0⟩⟩
  let steps := [.insertOrder (order "table"), .insertOrder (order "feast"),
    .insertPayment (payment "a" "table" 850 20002), .insertPayment (payment "b" "table" 400 20001),
    .insertPayment (payment "c" "feast" Word.greatest 20001),
    .insertPayment (payment "d" "feast" (-1) 20001), .insertPayment (payment "e" "feast" 1 20002)]
  [.change (.transact (steps.map fun choice : OrderStep => (choice, Call.on 20000 'a')) true)]

theorem totals_of_splitBills :
    let store := (splitBills.foldl meet (opened Settings.standard true)).shop.store
    (store.rowsOf "table").map (·.amount.cents) = [850, 400] ∧
    store.totalPaid "table" = .ok 1250 ∧
    (∃ shown, Shop.details store "table" = .ok shown ∧ shown.totalPaid = ⟨1250⟩) ∧
    (store.rowsOf "feast").map (·.amount.cents) = [Word.greatest, 1] ∧
    store.totalPaid "feast" = .error .sumOverflow ∧
    Shop.details store "feast" = .error (.overflow .add) := by
  intro store
  have htable : (store.rowsOf "table").map (·.amount.cents) = [850, 400] := by decide +kernel
  have hfeast : (store.rowsOf "feast").map (·.amount.cents) = [Word.greatest, 1] := by
    decide +kernel
  obtain ⟨o, ho⟩ := Option.isSome_iff_exists.mp
    (show (store.order? "table").isSome = true by decide +kernel)
  obtain ⟨p, hp⟩ := Option.isSome_iff_exists.mp
    (show (store.order? "feast").isSome = true by decide +kernel)
  have htotals := payment_totals_agree Settings.standard true splitBills "table" o ho
  have hovers := payment_totals_agree Settings.standard true splitBills "feast" p hp
  simp only at htotals hovers
  rw [htable, if_pos (by decide)] at htotals
  rw [hfeast, if_neg (by decide)] at hovers
  obtain ⟨htotal, shown, hshown, -, hsum⟩ := htotals
  exact ⟨htable, htotal, ⟨shown, hshown, hsum⟩, hfeast, hovers⟩

end Service

end OrderLedger
