import OrderLedger.Store.Basic
import OrderLedger.Store.Timeline

/-!
The stock ledger in the store, and the sums over it. A sum fails as soon as a running
sum, taken in the order of insertion, leaves the 64-bit range.
-/

namespace OrderLedger.Store

def appendEntry (e : StockEntry) : Statement := fun s =>
  if s.entries.any (fun other => other.id == e.id) then
    .error (.duplicateRow "inventory_ledger.id")
  else .ok { s with entries := s.entries ++ [e] }

def appendEntries (entries : List StockEntry) : Work StorageError Unit :=
  entries.forM fun e => Work.execute (appendEntry e)

def stockOf (s : Store) (productId : String) : Except StorageError Int :=
  match Word.sum? (StockEntry.deltasOf s.entries productId) with
  | some stock => .ok stock
  | none => .error .sumOverflow

/-- The stock of each of the listed products. One pass over the ledger adds up all of
them. -/
def stockOfMany (s : Store) (productIds : List String) : Except StorageError Tally :=
  let listed := s.entries.filter fun e => productIds.contains e.productId
  let start : Tally := (distinctSorted productIds).map fun id => (id, 0)
  match start.addAll? (StockEntry.changes listed) with
  | some stock => .ok stock
  | none => .error .sumOverflow

/-- The newest entries of a product. -/
def history (s : Store) (productId : String) (limit : Nat) : List StockEntry :=
  newestFirst (·.createdAt) limit (s.entries.filter fun e => e.productId == productId)

/-- The entries that refer to an order, oldest first. -/
def entriesOfOrder (s : Store) (orderId : String) : List StockEntry :=
  s.entries.filter fun e => e.provenance.orderId == some orderId

/-- One event for each product that appended entries touch, in ascending order. -/
def events (entries : List StockEntry) (now : Time.Instant) :
    Work StorageError (List StockEvent) := do
  let deltas ← Work.calculate (Word.require .add (Tally.of? (StockEntry.changes entries)))
  let stock ← Work.ask fun s => s.stockOfMany deltas.keys
  return deltas.map fun (productId, delta) => ⟨productId, stock.get productId, delta, now⟩

end OrderLedger.Store
