import OrderLedger.Store.Basic
import OrderLedger.Store.Timeline

/-!
Orders and their lines in the store. Deleting an order deletes what belongs to it:
its payments, its lines, every line whose parent is deleted, and their hand-overs.
-/

namespace OrderLedger.Store

def order? (s : Store) (id : String) : Option Order := s.orders.find? fun o => o.id == id

/-- The lines of an order in the order of their insertion. -/
def linesOf (s : Store) (orderId : String) : List Line :=
  s.lines.filter fun l => l.orderId == orderId

/-- The orders of a checkout attempt, oldest first. -/
def ordersOfAttempt (s : Store) (attemptId : String) : List Order :=
  chronological (·.createdAt) (s.orders.filter fun o => o.attemptId == some attemptId)

def ordersIn (s : Store) (status : Status) (limit : Nat) : List Order :=
  newestFirst (·.createdAt) limit (s.orders.filter fun o => o.status == status)

def pendingIds (s : Store) (attemptId keptId : String) : List String :=
  (s.orders.filter fun o =>
    o.attemptId == some attemptId && o.id != keptId && o.status == .pending).map (·.id)

def hasOrder (s : Store) (id : String) : Bool := s.orders.any fun o => o.id == id

def hasLine (s : Store) (id : String) : Bool := s.lines.any fun l => l.id == id

def insertOrder (o : Order) : Statement := fun s =>
  if o.total.cents < 0 then .error (.checkFailed "total_cents >= 0")
  else if s.hasOrder o.id then .error (.duplicateRow "orders.id")
  else .ok { s with orders := s.orders ++ [o] }

/-- The rule of its table that a line breaks, if it breaks one. -/
def brokenRule? (l : Line) : Option String :=
  if l.quantity ≤ 0 then some "quantity > 0"
  else if l.unitPrice.cents < 0 then some "unit_price_cents >= 0"
  else if l.type == .component && l.parentId.isNone then
    some "line_type <> 'component' OR parent_line_id IS NOT NULL"
  else none

/-- A line may be its own parent. -/
def insertLine (l : Line) : Statement := fun s =>
  match brokenRule? l with
  | some rule => .error (.checkFailed rule)
  | none =>
      if s.hasLine l.id then .error (.duplicateRow "order_lines.id")
      else if s.hasOrder l.orderId && l.parentId.all (fun id => id == l.id || s.hasLine id) then
        .ok { s with lines := s.lines ++ [l] }
      else .error .danglingReference

def insertLines (lines : List Line) : Work StorageError Unit :=
  lines.forM fun l => Work.execute (insertLine l)

def isIn (s : Store) (id : String) (status : Status) : Bool :=
  s.orders.any fun o => o.id == id && o.status == status

/-- The order in a new status, if it is in status `source`. -/
def withStatus (s : Store) (id : String) (source target : Status) (now : Time.Instant) : Store :=
  { s with
    orders := s.orders.map fun o =>
      if o.id == id && o.status == source then { o with status := target, updatedAt := now }
      else o }

/-- Moves an order if it is in status `source`, and tells whether it was. -/
def transition {ε : Type} (id : String) (source target : Status) (now : Time.Instant) :
    Work ε Bool := do
  let s ← get
  if s.isIn id source then
    set (s.withStatus id source target now)
    return true
  else return false

def isHandedOver (s : Store) (lineId : String) : Bool :=
  s.handOvers.any fun h => h.lineId == lineId

/-- A pending order of which no line was handed over. -/
def isDeletable (s : Store) (id : String) : Bool :=
  s.isIn id .pending && !(s.linesOf id).any fun l => s.isHandedOver l.id

/-- The given lines, and the lines below them to a depth. -/
def withDescendants (lines : List Line) : Nat → List String → List String
  | 0, ids => ids
  | depth + 1, ids =>
      withDescendants lines depth
        ((lines.filter fun l => ids.contains l.id || l.parentId.any ids.contains).map (·.id))

/-- The lines that are deleted together with an order. -/
def lineIdsUnder (s : Store) (orderId : String) : List String :=
  withDescendants s.lines s.lines.length ((s.linesOf orderId).map (·.id))

def withoutOrder (s : Store) (id : String) : Store :=
  let gone := s.lineIdsUnder id
  { s with
    orders := s.orders.filter fun o => o.id != id
    lines := s.lines.filter fun l => !gone.contains l.id
    payments := s.payments.filter fun p => p.orderId != id
    handOvers := s.handOvers.filter fun h => !gone.contains h.lineId }

/-- Deletes an order if it is deletable, and tells whether it was. -/
def deleteIfPending {ε : Type} (id : String) : Work ε Bool := do
  let s ← get
  if s.isDeletable id then
    set (s.withoutOrder id)
    return true
  else return false

end OrderLedger.Store
