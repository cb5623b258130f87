import OrderLedger.Error
import OrderLedger.HandOver
import OrderLedger.Remembered
import OrderLedger.Stock

/-!
The tables of the shop. Every table lists its rows in the order in which they were
inserted. A statement either takes effect as a whole or fails and changes nothing;
work in a transaction is a series of statements, and what a failing series has
already written is undone when its transaction is closed.

Some statements are given a list of ids: they read products or stocks, or hand lines over. The
list may be of any length here. It is taken to stay below the limit that SQLite has on the
values bound in one statement.
-/

namespace OrderLedger

/-- A slot of a menu without its options. -/
structure SlotRow where
  id : String
  menuId : String
  name : String
  sequence : Int
  deriving DecidableEq, Repr

structure SlotOption where
  slotId : String
  productId : String
  deriving DecidableEq, Repr

structure Store where
  products : List Product
  slots : List SlotRow
  options : List SlotOption
  orders : List Order
  lines : List Line
  payments : List Payment
  handOvers : List HandOver
  /-- The stock ledger. -/
  entries : List StockEntry
  remembered : List Remembered
  deriving DecidableEq, Repr

/-- The store with no rows. -/
def Store.empty : Store := ⟨[], [], [], [], [], [], [], [], []⟩

/-- A statement that changes rows. -/
abbrev Statement := Store → Except StorageError Store

/-- Work inside a transaction. When it fails, the store is as the work left it. -/
abbrev Work (ε : Type) := ExceptT (Fault ε) (StateM Store)

namespace Work

variable {ε ε' α : Type}

/-- The result of the work and the store after it. -/
def runOn (work : Work ε α) (s : Store) : Except (Fault ε) α × Store := (ExceptT.run work).run s

def fail (e : ε) : Work ε α := throw (.error e)

/-- A calculation that may leave the range of its numbers. -/
def calculate : Except Overflow α → Work ε α
  | .ok a => pure a
  | .error cause => throw (.overflow cause)

/-- A question to the store that may fail. -/
def ask (query : Store → Except StorageError α) : Work StorageError α := do
  match query (← get) with
  | .ok a => pure a
  | .error e => fail e

/-- Executes one statement. -/
def execute (statement : Statement) : Work StorageError Unit := do
  match statement (← get) with
  | .ok s => set s
  | .error e => fail e

/-- The same work with its errors told in other terms. -/
def recast (f : ε → ε') (work : Work ε α) : Work ε' α := ExceptT.adapt (Fault.map f) work

end Work

/-- How work ends its transaction when it has not failed. -/
inductive Closing (α : Type) where
  | commit (a : α)
  | rollback (a : α)

/-- Runs work as one transaction. Only committed work leaves anything behind. -/
def transact {ε α : Type} (work : Work ε (Closing α)) (s : Store) : Except (Fault ε) α × Store :=
  match work.runOn s with
  | (.ok (.commit a), after) => (.ok a, after)
  | (.ok (.rollback a), _) => (.ok a, s)
  | (.error e, _) => (.error e, s)

/-- Runs work as one transaction that is committed unless it fails. -/
def transactAll {ε α : Type} (work : Work ε α) (s : Store) : Except (Fault ε) α × Store :=
  transact (do return .commit (← work)) s

end OrderLedger
