import OrderLedger.Store.Orders
import OrderLedger.Tally

/-!
Hand-overs in the store. However often a line is handed over, one mark of it stays.
-/

namespace OrderLedger.Store

def handOver? (s : Store) (lineId : String) : Option HandOver :=
  s.handOvers.find? fun h => h.lineId == lineId

/-- The lines of an order that were handed over, in the order of the lines. -/
def handedOverLines (s : Store) (orderId : String) : List String :=
  ((s.linesOf orderId).map (·.id)).filter s.isHandedOver

/-- Marks a line unless it is marked, and tells whether it was not. -/
def mark {ε : Type} (h : HandOver) : Work ε Bool := do
  let s ← get
  if s.handOvers.any fun other => other.lineId == h.lineId || other.id == h.id then return false
  else
    set { s with handOvers := s.handOvers ++ [h] }
    return true

/-- Marks lines one by one with ids from `ids` on, and counts the new marks. -/
def markEach {ε : Type} (now : Time.Instant) (ids : Nat → String) :
    Nat → List String → Work ε Nat
  | _, [] => return 0
  | n, lineId :: rest => do
      let isNew ← mark ⟨ids n, lineId, now⟩
      let more ← markEach now ids (n + 1) rest
      return (if isNew then 1 else 0) + more

/-- Hands lines over and counts those that were not handed over before. An id that is
no line refuses them all. -/
def handOver (now : Time.Instant) (ids : Nat → String) (lineIds : List String) :
    Work StorageError Nat := do
  let distinct := distinctSorted lineIds
  let s ← get
  match distinct.find? fun id => !s.hasLine id with
  | some missing => Work.fail (.notFound "Order line" missing)
  | none => markEach now ids 0 distinct

end OrderLedger.Store
