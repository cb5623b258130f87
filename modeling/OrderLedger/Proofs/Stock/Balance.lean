import OrderLedger.Proofs.Integrity

/-!
The balance of the ledger and the orders. An order that is pending or paid holds what its
lines took, and an order that is cancelled, refunded or deleted gives it back. No action
changes the sum of the two, except for entries that are made by hand.
-/

namespace OrderLedger

/-- An order in this status holds what its lines took. -/
def Status.holdsStock : Status → Bool
  | .pending | .paid => true
  | .cancelled | .refunded => false

/-- The reason with which an order of this status, or a deleted one, has given its stock
back. -/
def Status.reasonBack? : Option Status → Option Reason
  | some .pending | some .paid => none
  | some .cancelled | none => some .correction
  | some .refunded => some .refund

theorem Status.reasonBack?_eq_none {status : Option Status} :
    reasonBack? status = none ↔ status.any holdsStock = true := by
  rcases status with _ | _ | _ | _ | _ <;> simp [reasonBack?, holdsStock]

namespace Store

/-- The lines of the orders that hold stock. -/
def heldLines (s : Store) : List Line :=
  s.lines.filter fun l => (s.statusOf l.orderId).any Status.holdsStock

/-- What the ledger says of a product, and what is held of it beyond that. -/
def balance (s : Store) (productId : String) : Int :=
  (StockEntry.deltasOf s.entries productId).sum + Line.taken s.heldLines productId

end Store

namespace Shop

/-- A stored order that held stock gives it back, and nothing else changes for any order. -/
structure GivesBack (settings : Settings) (now : Time.Instant) (ids : Nat → String)
    (orderId : String) (reason : Reason) (s t : Store) : Prop where
  held : (s.statusOf orderId).any Status.holdsStock = true
  entries : t.entries =
    s.entries ++ lineEntries settings now ids orderId reason 1 (s.linesOf orderId)
  reason : Status.reasonBack? (t.statusOf orderId) = some reason
  others : ∀ other, other ≠ orderId → t.statusOf other = s.statusOf other
  otherLines : (t.lines.filter fun l => l.orderId != orderId) =
    s.lines.filter fun l => l.orderId != orderId
  ownLines : t.hasOrder orderId = true → t.linesOf orderId = s.linesOf orderId

variable {settings : Settings} {call : Call} {s t : Store} {orderId : String} {reason : Reason}

theorem Reversed.givesBack {target : Status}
    (hreversed : Reversed settings call orderId target reason s t)
    (hreason : Status.reasonBack? (some target) = some reason) :
    GivesBack settings call.now call.ids orderId reason s t := by
  obtain ⟨o, hfound, hmove, rfl⟩ := hreversed
  have hafter := Store.statusOf_of_order? (order?_withStatus target call.now hfound rfl)
  refine ⟨?_, rfl, ?_, ?_, rfl, fun _ => rfl⟩
  · rw [Store.statusOf_of_order? hfound]
    -- Only a pending or a paid order may move at all.
    cases hstatus : o.status <;> cases target <;> simp_all [Status.canMoveTo, Status.holdsStock]
  · change Status.reasonBack? ((s.withStatus orderId o.status target call.now).statusOf orderId) = _
    rw [hafter]
    exact hreason
  · intro other hother
    exact Store.statusOf_withStatus_ne o.status target call.now hother

theorem Discarded.givesBack {now : Time.Instant} {ids : Nat → String} {es : List StockEntry}
    (hdiscarded : Discarded settings now ids orderId s t es) (hs : s.Intact) :
    GivesBack settings now ids orderId .correction s t := by
  obtain ⟨hdeletable, rfl, rfl⟩ := hdiscarded
  rw [Store.isDeletable, Bool.and_eq_true] at hdeletable
  have hstatus := Store.statusOf_withoutOrder s orderId
  have hgone : (s.withoutOrder orderId).statusOf orderId = none := by rw [hstatus, if_pos rfl]
  refine ⟨?_, rfl, ?_, ?_, ?_, ?_⟩
  · rw [Store.statusOf_of_isIn hs.orderIds hdeletable.1]
    rfl
  · change Status.reasonBack? ((s.withoutOrder orderId).statusOf orderId) = _
    rw [hgone]
    rfl
  · intro other hother
    exact (hstatus other).trans (if_neg hother)
  · change ((s.withoutOrder orderId).lines.filter fun l => l.orderId != orderId) = _
    rw [hs.lines_withoutOrder, List.filter_filter]
    simp
  · intro hstored
    rw [Store.statusOf_eq_none] at hgone
    exact absurd (hgone.symm.trans hstored) (by simp)

end Shop

/-- What lines take is what some of them take and what the others take. -/
theorem Line.taken_partition (keep : Line → Bool) (lines : List Line) (productId : String) :
    taken lines productId =
      taken (lines.filter keep) productId + taken (lines.filter fun l => !keep l) productId := by
  induction lines with
  | nil => rfl
  | cons l rest ih =>
      by_cases hkeep : keep l = true
      · simp only [List.filter_cons, hkeep, if_true, Bool.not_true, Bool.false_eq_true, if_false,
          taken_cons, ih]
        ring
      · simp only [List.filter_cons, hkeep, Bool.not_false, if_true, Bool.false_eq_true, if_false,
          taken_cons, ih]
        ring

namespace Store

variable {s t : Store}

theorem heldLines_eq (hlines : t.lines = s.lines)
    (hheld : ∀ id, (t.statusOf id).any Status.holdsStock = (s.statusOf id).any Status.holdsStock) :
    t.heldLines = s.heldLines := by
  unfold heldLines
  rw [hlines]
  apply List.filter_congr
  intro l _
  exact hheld l.orderId

theorem heldLines_of_held {id : String} (h : (s.statusOf id).any Status.holdsStock = true) :
    (s.heldLines.filter fun l => !(l.orderId != id)) = s.linesOf id := by
  unfold heldLines linesOf
  rw [List.filter_filter]
  apply List.filter_congr
  intro l _
  by_cases horder : l.orderId = id
  · simp [horder, h]
  · have hne : (l.orderId == id) = false := beq_eq_false_iff_ne.mpr horder
    rw [bne, hne]
    rfl

end Store

namespace Shop

variable {settings : Settings} {call : Call} {s t : Store}

theorem GivesBack.heldLines_eq {now : Time.Instant} {ids : Nat → String} {orderId : String}
    {reason : Reason} (h : GivesBack settings now ids orderId reason s t) :
    t.heldLines = s.heldLines.filter fun l => l.orderId != orderId := by
  have hkept : t.heldLines = (t.lines.filter fun l => l.orderId != orderId).filter fun l =>
      (t.statusOf l.orderId).any Status.holdsStock := by
    rw [List.filter_filter]
    apply List.filter_congr
    intro l _
    by_cases horder : l.orderId = orderId
    · have hnot : (t.statusOf orderId).any Status.holdsStock = false := by
        rw [← Bool.not_eq_true, ← Status.reasonBack?_eq_none, h.reason]
        simp
      simp [horder, hnot]
    · simp [horder]
  rw [hkept, h.otherLines, Store.heldLines, List.filter_filter, List.filter_filter]
  apply List.filter_congr
  intro l _
  by_cases horder : l.orderId = orderId
  · simp [horder]
  · rw [h.others _ horder, Bool.and_comm]

/-- What is given back goes from the held lines to the ledger. -/
theorem GivesBack.balance_eq {now : Time.Instant} {ids : Nat → String} {orderId : String}
    {reason : Reason} (h : GivesBack settings now ids orderId reason s t) (productId : String) :
    t.balance productId = s.balance productId := by
  have hheld := Line.taken_partition (fun l => l.orderId != orderId) s.heldLines productId
  rw [Store.heldLines_of_held h.held, ← h.heldLines_eq] at hheld
  rw [Store.balance, Store.balance, h.entries, StockEntry.deltasOf_append, List.sum_append,
    sum_deltas_lineEntries, hheld]
  ring

theorem DiscardedEach.balance_eq {now : Time.Instant} {ids : Nat → String}
    {orderIds : List String} {count : Nat} {es : List StockEntry}
    (hdiscarded : DiscardedEach settings now ids orderIds s t count es) (hs : s.Intact)
    (productId : String) : t.balance productId = s.balance productId := by
  induction hdiscarded with
  | nil => rfl
  | keep _ _ ih => exact ih hs
  | delete hfirst _ ih =>
      rw [ih (hfirst.intact hs), (hfirst.givesBack hs).balance_eq]

theorem Placed.statusOf_eq {d : Draft} (hplaced : Placed settings call d s t) (id : String) :
    t.statusOf id = if id = d.order.id then some d.order.status else s.statusOf id := by
  obtain ⟨records, -, rfl⟩ := hplaced.after
  exact Store.statusOf_insert rfl hplaced.newOrder id

theorem Placed.balance_eq {catalog : Catalog} {r : OrderRequest} {d : Draft}
    (hsound : Draft.Sound catalog call.pricedAt call.ids r d)
    (hplaced : Placed settings call d s t) (hs : s.Intact) (productId : String) :
    t.balance productId = s.balance productId := by
  have hstatus := hplaced.statusOf_eq
  have hheld : t.heldLines = s.heldLines ++ d.lines := by
    rw [Store.heldLines, hplaced.lines_eq, List.filter_append]
    congr 1
    · apply List.filter_congr
      intro l hl
      rw [hstatus, if_neg (hplaced.owner_ne hs l hl)]
    · rw [List.filter_eq_self]
      intro l hl
      rw [hstatus, if_pos (hsound.owner l hl), hsound.status]
      rfl
  obtain ⟨records, -, ht⟩ := hplaced.after
  have hentries : t.entries = _ := congrArg Store.entries ht
  rw [Store.balance, Store.balance, hheld, hentries, StockEntry.deltasOf_append,
    List.sum_append, sum_deltas_lineEntries, Line.taken_append]
  ring

theorem Paid.statusOf_eq {orderId : String} {tenders : List Tender} {key : Option String}
    {receipt : PaymentReceipt} (hpaid : Paid settings call orderId tenders key receipt s t)
    (id : String) :
    t.statusOf id = if id = orderId then some .paid else s.statusOf id := by
  obtain ⟨o, hfound, hpending, -⟩ := hpaid.order
  obtain ⟨records, -, rfl⟩ := hpaid.after
  split
  · next hid =>
      rw [hid]
      exact Store.statusOf_of_order? (order?_withStatus .paid call.now hfound hpending)
  · next hid => exact Store.statusOf_withStatus_ne .pending .paid call.now hid

theorem Paid.statusOf_before {orderId : String} {tenders : List Tender} {key : Option String}
    {receipt : PaymentReceipt} (hpaid : Paid settings call orderId tenders key receipt s t) :
    s.statusOf orderId = some .pending := by
  obtain ⟨o, hfound, hpending, -⟩ := hpaid.order
  rw [Store.statusOf_of_order? hfound, hpending]

theorem Paid.hasOrder_eq {orderId : String} {tenders : List Tender} {key : Option String}
    {receipt : PaymentReceipt} (hpaid : Paid settings call orderId tenders key receipt s t)
    (id : String) : t.hasOrder id = s.hasOrder id := by
  obtain ⟨records, -, rfl⟩ := hpaid.after
  rw [Bool.eq_iff_iff, Store.hasOrder_iff_mem, Store.hasOrder_iff_mem]
  change id ∈ (s.withStatus orderId .pending .paid call.now).orders.map (·.id) ↔ _
  rw [Store.ids_withStatus]

/-- Whether a payment comes in makes no difference to what an order holds. -/
theorem Paid.reasonBack?_eq {orderId : String} {tenders : List Tender} {key : Option String}
    {receipt : PaymentReceipt} (hpaid : Paid settings call orderId tenders key receipt s t)
    (id : String) :
    Status.reasonBack? (t.statusOf id) = Status.reasonBack? (s.statusOf id) := by
  rw [hpaid.statusOf_eq]
  split
  · next hid =>
      rw [hid, hpaid.statusOf_before]
      rfl
  · rfl

theorem Paid.balance_eq {orderId : String} {tenders : List Tender} {key : Option String}
    {receipt : PaymentReceipt} (hpaid : Paid settings call orderId tenders key receipt s t)
    (productId : String) : t.balance productId = s.balance productId := by
  have hreason := hpaid.reasonBack?_eq
  obtain ⟨records, -, ht⟩ := hpaid.after
  have hheld : t.heldLines = s.heldLines := by
    apply Store.heldLines_eq (by rw [ht])
    intro id
    rw [Bool.eq_iff_iff, ← Status.reasonBack?_eq_none, ← Status.reasonBack?_eq_none, hreason]
  have hentries : t.entries = s.entries := by rw [ht]
  rw [Store.balance, Store.balance, hheld, hentries]

/-- By product, an effect changes the balance by what was entered by hand. -/
theorem Effect.balance_eq {action : Action} {answer : Answer}
    (heffect : Effect settings call s action answer t) (hs : s.Intact) (productId : String) :
    t.balance productId = s.balance productId +
      (StockEntry.deltasOf (action.entered settings call answer) productId).sum := by
  cases heffect with
  | aside marks _ _ hentered =>
      rw [hentered]
      exact (add_zero _).symm
  | catalogued hentered =>
      rw [hentered]
      exact (add_zero _).symm
  | placed hsound hplaced =>
      rw [hplaced.balance_eq hsound hs]
      exact (add_zero _).symm
  | paid _ hpaid =>
      rw [hpaid.balance_eq]
      exact (add_zero _).symm
  | cancelled hreversed =>
      rw [(hreversed.givesBack rfl).balance_eq]
      exact (add_zero _).symm
  | refunded hreversed =>
      rw [(hreversed.givesBack rfl).balance_eq]
      exact (add_zero _).symm
  | discarded hdiscarded =>
      rw [(hdiscarded.givesBack hs).balance_eq]
      exact (add_zero _).symm
  | reaped hdiscarded =>
      rw [hdiscarded.balance_eq hs]
      exact (add_zero _).symm
  | entered =>
      change (StockEntry.deltasOf (s.entries ++ _) productId).sum +
        Line.taken s.heldLines productId = _
      rw [StockEntry.deltasOf_append, List.sum_append, Store.balance]
      ring
  | purged => exact (add_zero _).symm

end Shop

end OrderLedger
