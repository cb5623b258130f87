import OrderLedger.Service.Basic

/-!
Transactions of several steps that a caller puts together. A step that fails does not end
its transaction: the steps after it still run, and what it has written until then stays
part of the transaction. Only a committed transaction changes the store.
-/

namespace OrderLedger

/-- A step of a transaction: the table that it uses first, if there is one, and what it
does, unless a calculation that comes before leaves its range. -/
structure Step (α : Type) where
  table : Option Table
  prepare : Call → Except Overflow (Work StorageError α)

namespace Step

variable {α β : Type}

/-- A step that calculates nothing beforehand. -/
def plain (table : Option Table) (work : Call → Work StorageError α) : Step α :=
  ⟨table, fun call => .ok (work call)⟩

/-- The same step with its result told in other terms. -/
def map (f : α → β) (step : Step α) : Step β :=
  ⟨step.table, fun call => (step.prepare call).map fun work => return f (← work)⟩

/-- A step that does nothing. -/
def idle (a : α) : Step α := plain none fun _ => return a

def ofStatement (table : Table) (statement : Statement) : Step Unit :=
  plain (some table) fun _ => Work.execute statement

def ofQuestion (table : Table) (query : Store → Except StorageError α) : Step α :=
  plain (some table) fun _ => Work.ask query

def insertOrder (o : Order) : Step Unit := ofStatement .orders (Store.insertOrder o)

def insertLines (lines : List Line) : Step Unit :=
  plain (if lines.isEmpty then none else some .orderLines) fun _ => Store.insertLines lines

def insertPayment (p : Payment) : Step Unit := ofStatement .orderPayments (Store.insertPayment p)

def order? (id : String) : Step (Option Order) := ofQuestion .orders fun s => .ok (s.order? id)

def linesOf (orderId : String) : Step (List Line) :=
  ofQuestion .orderLines fun s => .ok (s.linesOf orderId)

/-- Moves an order if it is in status `source`, and tells whether it was. -/
def transition (id : String) (source target : Status) : Step Bool :=
  plain (some .orders) fun call => Store.transition id source target call.now

def deleteIfPending (id : String) : Step Bool :=
  plain (some .orders) fun _ => Store.deleteIfPending id

/-- The pending orders of an attempt, one order excepted. -/
def pendingIds (attemptId keptId : String) : Step (List String) :=
  ofQuestion .orders fun s => .ok (s.pendingIds attemptId keptId)

def append (entries : List (Call → StockEntry)) : Step Unit :=
  plain (if entries.isEmpty then none else some .stockLedger) fun call =>
    Store.appendEntries (entries.map (· call))

def stockOf (productId : String) : Step Int := ofQuestion .stockLedger fun s => s.stockOf productId

def stockOfMany (productIds : List String) : Step Tally :=
  plain (if productIds.isEmpty then none else some .stockLedger) fun _ =>
    Work.ask fun s => s.stockOfMany productIds

/-- Hands lines over and counts those that were not handed over before. -/
def handOver (lineIds : List String) : Step Nat :=
  plain (if lineIds.isEmpty then none else some .orderLines) fun call =>
    Store.handOver call.now call.ids lineIds

def claim (scope key : String) (payload : List UInt8) (seconds : Int) : Step (Remembered × Bool) :=
  ⟨some .rememberedAnswers, fun call => do
    let expiresAt ← Remembered.expiry call.now (← Remembered.lifetime seconds)
    return Store.claim scope key payload call.now expiresAt⟩

/-- Replaces the payload of a record. -/
def fill (scope key : String) (payload : List UInt8) : Step Unit :=
  ofStatement .rememberedAnswers (Store.fill scope key payload)

def live? (scope key : String) : Step (Option Remembered) :=
  plain (some .rememberedAnswers) fun call => return (← get).live? scope key call.now

end Step

namespace Service

variable {α : Type}

def runStep (hasTables : Bool) (step : Step α) (call : Call) (store : Store) :
    Except (Fault StorageError) α × Store :=
  match step.prepare call, if hasTables then none else step.table with
  | .error cause, _ => (.error (.overflow cause), store)
  | .ok _, some t => (.error (.error (.missingTable t.name)), store)
  | .ok work, none => work.runOn store

/-- Runs steps one after another, each with its call. A calculation that leaves its range
ends the run. -/
def runSteps (hasTables : Bool) :
    List (Step α × Call) → Store → Except Overflow (List (Except StorageError α)) × Store
  | [], store => (.ok [], store)
  | (step, call) :: rest, store =>
      match runStep hasTables step call store with
      | (.error (.overflow cause), store) => (.error cause, store)
      | (.error (.error e), store) =>
          let (answers, store) := runSteps hasTables rest store
          (answers.map (.error e :: ·), store)
      | (.ok a, store) =>
          let (answers, store) := runSteps hasTables rest store
          (answers.map (.ok a :: ·), store)

/-- Runs a transaction of several steps and tells what each of them answered. -/
def transact (s : Service) (steps : List (Step α × Call)) (commits : Bool) :
    Except (Fault StorageError) (List (Except StorageError α)) × Service :=
  match s.refusalAt? .transaction with
  | some e => (.error (.error e), s)
  | none =>
      match runSteps s.hasTables steps s.shop.store with
      | (.error cause, _) => (.error (.overflow cause), s)
      | (.ok answers, store) =>
          (.ok answers, if commits then { s with shop := { s.shop with store } } else s)

end Service

end OrderLedger
