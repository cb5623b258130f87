import OrderLedger.Shop.Details
import OrderLedger.Shop.Operation

/-!
A shop behind the connection to its store. The connection may be closed, and the store
may still be without its tables; an operation then fails where it would use the store
first, and what it checks before that it still checks.
-/

namespace OrderLedger

inductive Table where
  | products
  | menuSlots
  | orders
  | orderLines
  | orderPayments
  | lineHandOvers
  | stockLedger
  | rememberedAnswers
  deriving DecidableEq, Repr

def Table.name : Table → String
  | .products => "products"
  | .menuSlots => "menu_slots"
  | .orders => "orders"
  | .orderLines => "order_lines"
  | .orderPayments => "order_payments"
  | .lineHandOvers => "order_line_redemptions"
  | .stockLedger => "inventory_ledger"
  | .rememberedAnswers => "idempotency_records"

/-- How the store is reached: for one statement, or for a transaction of several. -/
inductive Door where
  | statement
  | transaction
  deriving DecidableEq, Repr

/-- The first use that something makes of the store: how it is reached, and the table
that is read or written first, if there is one. -/
structure FirstUse where
  door : Door
  table : Option Table
  deriving DecidableEq, Repr

structure Service where
  shop : Shop
  isOpen : Bool
  hasTables : Bool
  /-- Whether the tables are made when the shop is opened. -/
  makesTables : Bool
  deriving DecidableEq, Repr

namespace Operation

/-- What an operation checks before it uses the store. -/
def precheck : Operation → Except ShopError Unit
  | .place r => Shop.checkKey r.attemptId
  | .pay _ tenders key => do
      Shop.checkTenders tenders
      Shop.checkKey key
  | .enter _ delta reason actor => Shop.checkManual delta reason actor
  | _ => .ok ()

/-- The first use that an operation makes of the store. A cart without lines and an empty
batch make none. -/
def firstUse? : Operation → Option FirstUse
  | .place r =>
      if r.attemptId.isSome then some ⟨.statement, some .rememberedAnswers⟩
      else if r.productIds.isEmpty then none
      else some ⟨.statement, some .products⟩
  | .pay _ _ key =>
      if key.isSome then some ⟨.statement, some .rememberedAnswers⟩
      else some ⟨.transaction, some .orders⟩
  | .cancel _ | .refund _ | .reap _ _ | .handOverOrder _ => some ⟨.transaction, some .orders⟩
  | .discard _ => some ⟨.transaction, some .orderLines⟩
  | .handOverLines lineIds =>
      some ⟨.statement, if lineIds.isEmpty then none else some .orderLines⟩
  | .append entries => if entries.isEmpty then none else some ⟨.transaction, some .stockLedger⟩
  | .enter .. => some ⟨.statement, some .products⟩
  | .purge => some ⟨.statement, some .rememberedAnswers⟩

end Operation

namespace Service

/-- A shop that was just opened on an empty store. -/
def opened (settings : Settings) (makesTables : Bool) : Service :=
  { shop := Shop.opened settings, isOpen := true, hasTables := makesTables, makesTables }

def cannotOpen : StorageError :=
  .connection "error returned from database: (code: 14) unable to open database file"

/-- Opens a shop. `isReachable` tells whether its store can be opened at its path. -/
def start (settings : Settings) (isReachable : Bool) : Except ShopError Service := do
  settings.validate.mapError fun e => .settings e.message
  if isReachable then .ok (opened settings true) else .error (.ofStorage cannotOpen)

/-- Opens the store as it is, without making its tables. The settings are not checked, so
the number of connections may come out as none. -/
def startBare (settings : Settings) (isReachable : Bool) : Except (Fault StorageError) Service :=
  if settings.opening.maxConnections = 0 then .error (.overflow .connections)
  else if isReachable then .ok (opened settings false)
  else .error (.error cannotOpen)

/-- Whether the store is lost when it is closed: in memory, or in a file without a name. -/
def isTemporary (s : Service) : Bool :=
  s.shop.settings.opening.isInMemory || s.shop.settings.path.isEmpty

/-- Opens a shop again as it was opened before. A temporary store is lost, and so are all
subscriptions. -/
def restart (s : Service) : Service :=
  let fresh := opened s.shop.settings s.makesTables
  if s.isTemporary then fresh
  else
    { fresh with
      shop := { fresh.shop with store := s.shop.store }
      hasTables := fresh.hasTables || s.hasTables }

def close (s : Service) : Service := { s with isOpen := false }

/-- Why the store cannot be reached. -/
def refusalAt? (s : Service) : Door → Option StorageError
  | .statement => if s.isOpen then none else some .closed
  | .transaction =>
      if s.isOpen then none
      else some (.transaction "attempted to acquire a connection on a closed pool")

/-- Why the store refuses a first use. -/
def refusal? (s : Service) (first : FirstUse) : Option StorageError :=
  (s.refusalAt? first.door).or <|
    if s.hasTables then none else first.table.map fun t => .missingTable t.name

/-- Performs an operation, or tells why the store cannot be used. -/
def perform (call : Call) (operation : Operation) (s : Service) :
    Except (Fault ShopError) Reply × Service :=
  match operation.firstUse?.bind s.refusal? with
  | some e =>
      match operation.precheck with
      | .error refused => (.error (.error refused), s)
      | .ok () => (.error (.error (.ofStorage e)), s)
  | none =>
      let (reply, shop) := s.shop.perform call operation
      (reply, { s with shop })

/-- Asks the store a question with one statement. -/
def ask {α : Type} (s : Service) (table : Option Table) (query : Store → Except StorageError α) :
    Except StorageError α :=
  match s.refusal? ⟨.statement, table⟩ with
  | some e => .error e
  | none => query s.shop.store

/-- Changes the store. -/
def write {α : Type} (s : Service) (first : FirstUse)
    (change : Store → Except (Fault StorageError) α × Store) :
    Except (Fault StorageError) α × Service :=
  match s.refusal? first with
  | some e => (.error (.error e), s)
  | none =>
      let (result, store) := change s.shop.store
      (result, { s with shop := { s.shop with store } })

/-- The steps that make the tables, and how many of them are known to be done. -/
def tableSteps (s : Service) : Nat × Nat := (1, if s.isOpen && s.hasTables then 1 else 0)

/-- Does something to the feed. -/
def onFeed {α : Type} (s : Service) (f : Feed → α × Feed) : α × Service :=
  let (a, feed) := f s.shop.feed
  (a, { s with shop := { s.shop with feed } })

end Service

end OrderLedger
