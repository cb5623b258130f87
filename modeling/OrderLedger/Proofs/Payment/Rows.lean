import OrderLedger.Proofs.Integrity

/-!
The payments of an order and its status. An order that is paid or refunded has been
settled, by the one action that recorded payments for it; every other order has none.
-/

namespace OrderLedger

/-- An order in this status has been paid. -/
def Status.isSettled : Status → Bool
  | .paid | .refunded => true
  | .pending | .cancelled => false

/-- The moves other than to paid are between statuses that are settled and between statuses
that are not. -/
theorem Status.isSettled_eq {source target : Status} (hmove : source.canMoveTo target = true)
    (htarget : target ≠ .paid) : source.isSettled = target.isSettled := by
  cases source <;> cases target <;> simp_all [canMoveTo, isSettled]

namespace Store

variable {s t : Store} {id : String}

def isSettled (s : Store) (id : String) : Bool := (s.statusOf id).any Status.isSettled

theorem isSettled_of_statusOf {status : Status} (h : s.statusOf id = some status) :
    s.isSettled id = status.isSettled := by
  rw [isSettled, h, Option.any_some]

theorem isSettled_congr (h : t.statusOf id = s.statusOf id) : t.isSettled id = s.isSettled id := by
  rw [isSettled, isSettled, h]

/-- The payments of an order in the order of their insertion. -/
def rowsOf (s : Store) (id : String) : List Payment :=
  s.payments.filter fun p => p.orderId == id

/-- No order has payments before it is settled. -/
def SettledFirst (s : Store) : Prop := ∀ id, s.isSettled id = false → s.rowsOf id = []

/-- No order has gained or lost payments, or been settled. -/
def SameRows (s t : Store) : Prop :=
  ∀ id, t.rowsOf id = s.rowsOf id ∧ t.isSettled id = s.isSettled id

theorem SameRows.settledFirst (h : SameRows s t) (hs : s.SettledFirst) : t.SettledFirst := by
  intro id hsettled
  rw [(h id).2] at hsettled
  rw [(h id).1, hs id hsettled]

theorem sameRows_of_eq (horders : t.orders = s.orders) (hpayments : t.payments = s.payments) :
    SameRows s t := by
  intro id
  rw [rowsOf, rowsOf, hpayments]
  exact ⟨rfl, isSettled_congr (statusOf_of_orders horders id)⟩

end Store

namespace Shop

variable {settings : Settings} {call : Call} {s t : Store}

theorem Placed.sameRows {d : Draft} (hstatus : d.order.status = .pending)
    (hplaced : Placed settings call d s t) : Store.SameRows s t := by
  obtain ⟨records, -, rfl⟩ := hplaced.after
  intro id
  refine ⟨rfl, ?_⟩
  rw [Store.isSettled, Store.statusOf_insert rfl hplaced.newOrder]
  split
  · next hid =>
      rw [Store.isSettled, hid, Store.statusOf_eq_none.mpr hplaced.newOrder, hstatus]
      rfl
  · rfl

theorem Reversed.sameRows {orderId : String} {target : Status} {reason : Reason}
    (hreversed : Reversed settings call orderId target reason s t) (htarget : target ≠ .paid) :
    Store.SameRows s t := by
  obtain ⟨o, hfound, hmove, rfl⟩ := hreversed
  intro id
  refine ⟨rfl, ?_⟩
  change (s.withStatus orderId o.status target call.now).isSettled id = s.isSettled id
  by_cases hid : id = orderId
  · subst hid
    have hafter := Store.statusOf_of_order? (order?_withStatus target call.now hfound rfl)
    rw [Store.isSettled_of_statusOf hafter,
      Store.isSettled_of_statusOf (Store.statusOf_of_order? hfound),
      Status.isSettled_eq hmove htarget]
  · apply Store.isSettled_congr
    exact Store.statusOf_withStatus_ne _ _ _ hid

theorem Discarded.sameRows {now : Time.Instant} {ids : Nat → String} {orderId : String}
    {es : List StockEntry} (hdiscarded : Discarded settings now ids orderId s t es)
    (hs : s.Intact) (hfirst : s.SettledFirst) : Store.SameRows s t := by
  obtain ⟨hdeletable, -, rfl⟩ := hdiscarded
  rw [Store.isDeletable, Bool.and_eq_true] at hdeletable
  have hpending := Store.statusOf_of_isIn hs.orderIds hdeletable.1
  have hopen : s.isSettled orderId = false := Store.isSettled_of_statusOf hpending
  intro id
  have hrows : (s.withoutOrder orderId).rowsOf id =
      s.payments.filter fun p => p.orderId == id && p.orderId != orderId :=
    List.filter_filter
  change (s.withoutOrder orderId).rowsOf id = s.rowsOf id ∧
    (s.withoutOrder orderId).isSettled id = s.isSettled id
  rw [hrows, Store.isSettled, Store.statusOf_withoutOrder]
  by_cases hid : id = orderId
  · subst hid
    rw [hfirst id hopen, if_pos rfl, hopen]
    exact ⟨by simp, rfl⟩
  · rw [if_neg hid]
    refine ⟨?_, rfl⟩
    apply List.filter_congr
    intro p _
    by_cases hp : p.orderId = id
    · simp [hp, hid]
    · simp [hp]

theorem DiscardedEach.sameRows {now : Time.Instant} {ids : Nat → String} {orderIds : List String}
    {count : Nat} {es : List StockEntry}
    (hdiscarded : DiscardedEach settings now ids orderIds s t count es) (hs : s.Intact)
    (hfirst : s.SettledFirst) : Store.SameRows s t := by
  induction hdiscarded with
  | nil => exact fun _ => ⟨rfl, rfl⟩
  | keep _ _ ih => exact ih hs hfirst
  | delete hdeleted _ ih =>
      have hsame := hdeleted.sameRows hs hfirst
      have hrest := ih (hdeleted.intact hs) (hsame.settledFirst hfirst)
      intro id
      exact ⟨(hrest id).1.trans (hsame id).1, (hrest id).2.trans (hsame id).2⟩

theorem checkTenders_ne_nil {tenders : List Tender} (h : checkTenders tenders = .ok ()) :
    tenders ≠ [] := by
  rintro rfl
  cases h

/-- An order that was not settled before has the payments of a call, and no others. -/
structure Settles (settings : Settings) (call : Call) (id : String) (tenders : List Tender)
    (s t : Store) : Prop where
  before : s.isSettled id = false
  after : t.isSettled id = true
  rows : t.rowsOf id = paymentsBy settings call id tenders

theorem rowsOf_paymentsBy (id other : String) (tenders : List Tender) :
    ((paymentsBy settings call id tenders).filter fun p => p.orderId == other) =
      if other = id then paymentsBy settings call id tenders else [] := by
  split
  · next hid =>
      rw [List.filter_eq_self]
      intro p hp
      obtain ⟨x, -, rfl⟩ := List.mem_map.mp hp
      simp [hid]
  · next hid =>
      rw [List.filter_eq_nil_iff]
      intro p hp
      obtain ⟨x, -, rfl⟩ := List.mem_map.mp hp
      simp [Ne.symm hid]

/-- A payment settles its order and leaves the payments of all others. -/
theorem Paid.settles {orderId : String} {tenders : List Tender} {key : Option String}
    {receipt : PaymentReceipt} (hpaid : Paid settings call orderId tenders key receipt s t)
    (hfirst : s.SettledFirst) :
    Settles settings call orderId tenders s t ∧
      ∀ id, id ≠ orderId → t.rowsOf id = s.rowsOf id ∧ t.isSettled id = s.isSettled id := by
  obtain ⟨o, hfound, hpending, -⟩ := hpaid.order
  obtain ⟨records, -, rfl⟩ := hpaid.after
  have hstatus : s.statusOf orderId = some .pending := by
    rw [Store.statusOf_of_order? hfound, hpending]
  have hopen : s.isSettled orderId = false := Store.isSettled_of_statusOf hstatus
  have hrows (id : String) :
      s.rowsOf id ++ (paymentsBy settings call orderId tenders).filter (fun p => p.orderId == id) =
        (s.payments ++ paymentsBy settings call orderId tenders).filter
          fun p => p.orderId == id := by
    rw [List.filter_append]
    rfl
  refine ⟨⟨hopen, ?_, ?_⟩, ?_⟩
  · change (s.withStatus orderId .pending .paid call.now).isSettled orderId = true
    have hafter := order?_withStatus .paid call.now hfound hpending
    exact Store.isSettled_of_statusOf (Store.statusOf_of_order? hafter)
  · rw [Store.rowsOf, ← hrows, hfirst orderId hopen, rowsOf_paymentsBy, if_pos rfl, List.nil_append]
  · intro id hid
    constructor
    · rw [Store.rowsOf, ← hrows, rowsOf_paymentsBy, if_neg hid, List.append_nil]
    · apply Store.isSettled_congr
      exact Store.statusOf_withStatus_ne .pending .paid call.now hid

/-- An action leaves the payments of an order as they are, or it is the payment that
settles it. -/
theorem Effect.rowsOf_eq {action : Action} {answer : Answer}
    (heffect : Effect settings call s action answer t) (hs : s.Intact)
    (hfirst : s.SettledFirst) (id : String) :
    (t.rowsOf id = s.rowsOf id ∧ t.isSettled id = s.isSettled id) ∨
      ∃ tenders key, action = .operate (.pay id tenders key) ∧ tenders ≠ [] ∧
        Settles settings call id tenders s t := by
  cases heffect with
  | aside marks => exact Or.inl (Store.sameRows_of_eq rfl rfl id)
  | catalogued => exact Or.inl (Store.sameRows_of_eq rfl rfl id)
  | placed hsound hplaced => exact Or.inl (hplaced.sameRows hsound.status id)
  | @paid orderId tenders key _ _ hchecked hpaid =>
      obtain ⟨hsettles, hothers⟩ := hpaid.settles hfirst
      by_cases hid : id = orderId
      · subst hid
        exact Or.inr ⟨tenders, key, rfl, checkTenders_ne_nil hchecked.1, hsettles⟩
      · exact Or.inl (hothers id hid)
  | cancelled hreversed => exact Or.inl (hreversed.sameRows (by decide) id)
  | refunded hreversed => exact Or.inl (hreversed.sameRows (by decide) id)
  | discarded hdiscarded => exact Or.inl (hdiscarded.sameRows hs hfirst id)
  | reaped hdiscarded => exact Or.inl (hdiscarded.sameRows hs hfirst id)
  | entered => exact Or.inl (Store.sameRows_of_eq rfl rfl id)
  | purged => exact Or.inl (Store.sameRows_of_eq rfl rfl id)

end Shop

end OrderLedger
