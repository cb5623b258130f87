import OrderLedger.Proofs.Formats
import OrderLedger.Proofs.Order.Drafts

/-!
Receipts survive the wire. So the answer that is kept for a retry is the answer that the
first call gave.
-/

namespace OrderLedger

open Wire

/-- The amounts of an order fit in 64 bits and its moments are moments of the calendar. -/
structure Order.IsSound (o : Order) : Prop where
  total : Word.Fits o.total.cents
  createdAt : o.createdAt.IsValid
  updatedAt : o.updatedAt.IsValid

structure Line.IsSound (l : Line) : Prop where
  quantity : Word.Fits l.quantity
  unitPrice : Word.Fits l.unitPrice.cents
  createdAt : l.createdAt.IsValid

structure Payment.IsSound (p : Payment) : Prop where
  amount : Word.Fits p.amount.cents
  paidAt : p.paidAt.IsValid

theorem Order.IsSound.faithful {o : Order} (h : o.IsSound) : Faithful.IsSound o := by
  obtain ⟨htotal, hcreated, hupdated⟩ := h
  simp [Faithful.IsSound, Order.format, htotal, hcreated, hupdated]

theorem Line.IsSound.faithful {l : Line} (h : l.IsSound) : Faithful.IsSound l := by
  obtain ⟨hquantity, hprice, hcreated⟩ := h
  simp [Faithful.IsSound, Line.format, hquantity, hprice, hcreated]

theorem Payment.IsSound.faithful {p : Payment} (h : p.IsSound) : Faithful.IsSound p := by
  obtain ⟨hamount, hpaid⟩ := h
  simp [Faithful.IsSound, Payment.format, hamount, hpaid]

theorem OrderReceipt.survives {r : OrderReceipt} (horder : r.order.IsSound)
    (hlines : ∀ l ∈ r.lines, l.IsSound) : Survives r := by
  have hsound : Faithful.IsSound r.lines := fun l hl => (hlines l hl).faithful
  apply Faithful.survives
  exact List.forall_mem_cons.mpr ⟨horder.faithful, List.forall_mem_singleton.mpr hsound⟩

theorem PaymentReceipt.survives {r : PaymentReceipt} (horder : r.order.IsSound)
    (hpayments : ∀ p ∈ r.payments, p.IsSound) : Survives r := by
  have hsound : Faithful.IsSound r.payments := fun p hp => (hpayments p hp).faithful
  apply Faithful.survives
  exact List.forall_mem_cons.mpr ⟨horder.faithful, List.forall_mem_singleton.mpr hsound⟩

namespace Draft

variable {catalog : Catalog} {now : Time.Instant} {ids : Nat → String} {r : OrderRequest}
  {d : Draft}

theorem Sound.order_isSound (hsound : Sound catalog now ids r d) (hnow : now.IsValid) :
    d.order.IsSound := by
  refine ⟨hsound.total, ?_, ?_⟩
  · rwa [hsound.created]
  · rwa [hsound.updated]

theorem Sound.survives (hsound : Sound catalog now ids r d) (hnow : now.IsValid)
    (hprices : ∀ p ∈ catalog.products, Word.Fits p.price.cents) : Survives d.receipt := by
  apply OrderReceipt.survives (hsound.order_isSound hnow)
  intro l hl
  have hpriced := hsound.lines l hl
  have hquantity := hsound.quantities l hl
  refine ⟨?_, ?_, ?_⟩
  · simp only [Word.Fits, Word.least, Word.greatest]
    omega
  · rcases hpriced.price with hzero | ⟨p, hp, hprice⟩
    · rw [hzero]
      exact Word.fits_zero
    · rw [hprice]
      exact hprices p hp
  · rw [hpriced.created]
    exact hnow

end Draft

end OrderLedger
