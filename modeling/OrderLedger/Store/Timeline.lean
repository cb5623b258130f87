import OrderLedger.Time.Rfc3339

/-!
Time in the tables. A timestamp is stored as text, and timestamps are compared and
sorted by that text.
-/

namespace OrderLedger.Store

open OrderLedger.Time

/-- Whether the text of `a` sorts at or before the text of `b`. -/
def notAfter (a b : Instant) : Bool := decide (Rfc3339.storedText a ≤ Rfc3339.storedText b)

/-- The rows in ascending time; rows of one time keep their order. -/
def chronological {α : Type} (time : α → Instant) (rows : List α) : List α :=
  rows.mergeSort fun a b => notAfter (time a) (time b)

theorem chronological_perm {α : Type} (time : α → Instant) (rows : List α) :
    (chronological time rows).Perm rows :=
  List.mergeSort_perm rows _

/-- The rows in descending time, at most `limit` of them; of two rows of one time the
later row comes first. -/
def newestFirst {α : Type} (time : α → Instant) (limit : Nat) (rows : List α) : List α :=
  (chronological time rows).reverse.take limit

end OrderLedger.Store
