import OrderLedger.Json.Wire

/-!
The life of an order. It starts pending; it is paid or cancelled; a paid order
may be refunded. Cancelled and refunded orders move no further.
-/

namespace OrderLedger

inductive Status where
  | pending
  | paid
  | cancelled
  | refunded
  deriving DecidableEq, Repr, Inhabited

namespace Status

def text : Status → String
  | .pending => "pending"
  | .paid => "paid"
  | .cancelled => "cancelled"
  | .refunded => "refunded"

instance : Named Status := ⟨[.pending, .paid, .cancelled, .refunded], text⟩

def initial : Status := .pending

/-- The three moves that an order may make. -/
def canMoveTo : Status → Status → Bool
  | .pending, .paid => true
  | .pending, .cancelled => true
  | .paid, .refunded => true
  | _, _ => false

def isFinal : Status → Bool
  | .cancelled | .refunded => true
  | _ => false

/-- An order in a final status has no move left, and every other order has one. -/
theorem isFinal_iff (s : Status) : s.isFinal = true ↔ ∀ t, s.canMoveTo t = false := by
  constructor
  · intro h t
    cases s <;> cases t <;> simp_all [isFinal, canMoveTo]
  · intro h
    have hpaid := h .paid
    have hrefunded := h .refunded
    cases s <;> simp_all [isFinal, canMoveTo]

end Status

end OrderLedger
